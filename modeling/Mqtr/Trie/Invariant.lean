import Mqtr.Trie.Node

/-! The representation invariant of the trie: below the root there are only child nodes, none of them
empty, siblings have ascending names, and the values of a node satisfy a condition of their own.
Updates keep it. -/
namespace Mqtr

theorem Subscription.cmp_eq_lex :
    Subscription.cmp = compareLex (compareOn fun s : Subscription => s.clientId.val)
      (compareOn fun s : Subscription => s.topicFilter.val) := by
  funext a b
  simp only [Subscription.cmp, compareLex, compareOn]
  cases compare a.clientId.val b.clientId.val <;> rfl

instance : Std.TransOrd Subscription := by
  change Std.TransCmp Subscription.cmp
  rw [Subscription.cmp_eq_lex]
  infer_instance

/-- Subscriptions have the same rank if they are of one client for one filter. -/
theorem Subscription.compare_eq_iff {a b : Subscription} :
    compare a b = .eq ↔ a.clientId = b.clientId ∧ a.topicFilter = b.topicFilter := by
  have hclient : compare a.clientId.val b.clientId.val = .eq ↔ a.clientId = b.clientId := by
    rw [Std.LawfulEqCmp.compare_eq_iff_eq, ClientID.mk.injEq]
  have hfilter : compare a.topicFilter.val b.topicFilter.val = .eq ↔
      a.topicFilter = b.topicFilter := by
    rw [Std.LawfulEqCmp.compare_eq_iff_eq, TopicFilter.mk.injEq]
  rw [← hclient, ← hfilter]
  change Subscription.cmp a b = .eq ↔ _
  unfold Subscription.cmp
  cases compare a.clientId.val b.clientId.val <;> simp

namespace Node
variable {V : Type}

/-- The name of a node, with a dummy for the root. -/
def label : Node V → String
  | .root _ => ""
  | .child name _ _ => name

def values : Node V → List V
  | .root _ => []
  | .child _ _ values => values

@[simp] theorem children_setChildren (n : Node V) (ns : List (Node V)) :
    (n.setChildren ns).children = ns := by
  cases n <;> rfl

@[simp] theorem values_setChildren (n : Node V) (ns : List (Node V)) :
    (n.setChildren ns).values = n.values := by
  cases n <;> rfl

@[simp] theorem asName_setChildren (n : Node V) (ns : List (Node V)) :
    (n.setChildren ns).asName = n.asName := by
  cases n <;> rfl

/-- Where a level belongs among siblings: what stands before it, the node of that name if there is
one, and what stands after it. -/
structure Slot (l : String) (ns pre : List (Node V)) (mid : Option (Node V))
    (post : List (Node V)) : Prop where
  split : ns = pre ++ (mid.toList ++ post)
  lt : ∀ x ∈ pre, compare x.label l = .lt
  gt : ∀ x ∈ post, compare x.label l = .gt
  name : ∀ c ∈ mid, c.label = l

/-- The search by name finds the slot of a level. -/
theorem searchName_slot {ns : List (Node V)} (hname : ∀ n ∈ ns, n.asName = some n.label)
    (hnames : ns.Pairwise fun a b => compare a.label b.label = .lt) (l : String) :
    ∃ pre mid post, Slot l ns pre mid post ∧
      searchName l ns = some (if mid.isSome then .ok pre.length else .error pre.length) := by
  have hprobe : ∀ n ∈ ns, n.asName.map (compare · l) = some (compare n.label l) := by
    intro n hn
    rw [hname n hn, Option.map_some]
  obtain ⟨a, ha, hans⟩ := Bisect.search_answer hprobe (Bisect.ascending_of_sorted hnames l)
  cases a with
  | ok i =>
    obtain ⟨pre, c, post, rfl, rfl, hc⟩ := hans
    have hl : c.label = l := Std.LawfulEqCmp.eq_of_compare hc
    subst hl
    have hp := List.pairwise_append.mp hnames
    refine ⟨pre, some c, post, ⟨rfl, ?_, ?_, by simp⟩, ha⟩
    · exact fun x hx => hp.2.2 x hx c (by simp)
    · intro x hx
      rw [Std.OrientedCmp.gt_iff_lt]
      exact (List.pairwise_cons.mp hp.2.1).1 x hx
  | error i =>
    obtain ⟨pre, post, rfl, rfl, hlt, hgt⟩ := hans
    exact ⟨pre, none, post, ⟨by simp, hlt, hgt, by simp⟩, ha⟩

namespace Slot
variable {l : String} {ns pre post : List (Node V)} {mid mid' : Option (Node V)}

theorem mem_mid (s : Slot l ns pre mid post) : ∀ c ∈ mid, c ∈ ns :=
  fun c hc => by rw [s.split]; simp [Option.mem_def.mp hc]

theorem mem_fill (s : Slot l ns pre mid post) {n : Node V}
    (hn : n ∈ pre ++ (mid'.toList ++ post)) : n ∈ mid' ∨ n ∈ ns := by
  simp only [List.mem_append, Option.mem_toList] at hn
  rw [s.split]
  rcases hn with hn | hn | hn
  · exact .inr (by simp [hn])
  · exact .inl hn
  · exact .inr (by simp [hn])

/-- Whatever fills the slot, siblings stay in order. -/
theorem names_fill (s : Slot l ns pre mid post)
    (hnames : ns.Pairwise fun a b => compare a.label b.label = .lt) (hl : ∀ c ∈ mid', c.label = l) :
    (pre ++ (mid'.toList ++ post)).Pairwise fun a b => compare a.label b.label = .lt := by
  have hsub : (pre ++ post).Sublist ns := by
    rw [s.split]
    exact (List.Sublist.refl pre).append (List.sublist_append_right _ _)
  have hrest := hnames.sublist hsub
  cases mid' with
  | none => simpa using hrest
  | some c =>
    obtain ⟨hpre, hpost, hcross⟩ := List.pairwise_append.mp hrest
    have hc : c.label = l := hl c rfl
    refine List.pairwise_append.mpr ⟨hpre, List.pairwise_cons.mpr ⟨?_, hpost⟩, ?_⟩
    · intro x hx
      rw [hc, ← Std.OrientedCmp.gt_iff_lt]
      exact s.gt x hx
    · intro a ha b hb
      rcases List.mem_cons.mp hb with rfl | hb
      · rw [hc]
        exact s.lt a ha
      · exact hcross a ha b hb

end Slot

/-- A node below the root, in order and without empty nodes all the way down; `P` is what holds of
the values of a node. -/
inductive Proper (P : List V → Prop) : Node V → Prop where
  | mk {name : String} {children : List (Node V)} {values : List V}
      (below : ∀ n ∈ children, Proper P n)
      (names : children.Pairwise fun a b => compare a.label b.label = .lt)
      (held : P values) (inhabited : children ≠ [] ∨ values ≠ []) :
      Proper P (.child name children values)

/-- The root or a branch, which may be an empty one. -/
structure Kept (P : List V → Prop) (n : Node V) : Prop where
  below : ∀ c ∈ n.children, c.Proper P
  names : n.children.Pairwise fun a b => compare a.label b.label = .lt
  held : P n.values

variable {P : List V → Prop}

theorem proper_iff {n : Node V} :
    n.Proper P ↔ n.asName = some n.label ∧ n.Kept P ∧ n.isEmpty = false := by
  constructor
  · rintro ⟨below, names, held, inhabited⟩
    refine ⟨rfl, ⟨below, names, held⟩, ?_⟩
    simpa [isEmpty, or_iff_not_imp_left] using inhabited
  · rintro ⟨hname, hkept, hne⟩
    cases n with
    | root => simp [asName] at hname
    | child name children values =>
      refine .mk hkept.below hkept.names hkept.held ?_
      simpa [isEmpty, or_iff_not_imp_left] using hne

theorem kept_newNode (hP : P []) (l : String) : (newNode l : Node V).Kept P :=
  ⟨by simp [newNode, children], by simp [newNode, children], hP⟩

theorem kept_root_nil (hP : P []) : (Node.root [] : Node V).Kept P :=
  ⟨by simp [children], by simp [children], hP⟩

theorem Kept.slot {n : Node V} (h : n.Kept P) (l : String) :
    ∃ pre mid post, Slot l n.children pre mid post ∧
      searchName l n.children = some (if mid.isSome then .ok pre.length else .error pre.length) :=
  searchName_slot (fun c hc => (proper_iff.mp (h.below c hc)).1) h.names l

/-- The node in a slot, or the new one that `grow` makes. -/
theorem Kept.start {n : Node V} (h : n.Kept P) (hP : P []) {l : String} {pre post : List (Node V)}
    {mid : Option (Node V)} (slot : Slot l n.children pre mid post) :
    (mid.getD (newNode l)).Kept P ∧ (mid.getD (newNode l)).asName = some l := by
  cases mid with
  | none => exact ⟨kept_newNode hP l, rfl⟩
  | some c =>
    have hc := proper_iff.mp (h.below c (slot.mem_mid c rfl))
    exact ⟨hc.2.1, hc.1.trans (congrArg some (slot.name c rfl))⟩

/-- Filling a slot keeps a node in order. -/
theorem Kept.fill {n : Node V} (h : n.Kept P) {l : String} {pre post : List (Node V)}
    {mid mid' : Option (Node V)} (slot : Slot l n.children pre mid post)
    (hb : ∀ c ∈ mid', c.Proper P ∧ c.label = l) :
    (n.setChildren (pre ++ (mid'.toList ++ post))).Kept P := by
  constructor
  · intro c hc
    rw [children_setChildren] at hc
    rcases slot.mem_fill hc with hc | hc
    · exact (hb c hc).1
    · exact h.below c hc
  · rw [children_setChildren]
    exact slot.names_fill h.names fun c hc => (hb c hc).2
  · simpa using h.held

/-- The node itself, unless it is empty. -/
def pruned (n : Node V) : Option (Node V) := if n.isEmpty then none else some n

section Walks
variable {α : Type} {leaf : Node V → Option (Node V × α)}

/-- What `grow` does on a level: the slot of the level receives the updated child, a new one where
there was none. -/
theorem grow_cons (leaf : Node V → Option (Node V × α)) {n : Node V} (h : n.Kept P) (l : String)
    (ls : List String) :
    ∃ pre mid post, Slot l n.children pre mid post ∧
      grow leaf (l :: ls) n = (grow leaf ls (mid.getD (newNode l))).map fun r =>
        (n.setChildren (pre ++ ((some r.1).toList ++ post)), r.2) := by
  obtain ⟨pre, mid, post, slot, hsearch⟩ := h.slot l
  refine ⟨pre, mid, post, slot, ?_⟩
  cases mid with
  | none =>
    have hns : n.children = pre ++ post := by simpa using slot.split
    rw [hns] at hsearch
    simp only [grow, hns, hsearch, Option.isSome_none, Bool.false_eq_true, if_false,
      Option.bind_eq_bind, Option.bind_some, Bisect.insertAt_append, Option.getD_none]
    cases grow leaf ls (newNode l) <;> rfl
  | some c =>
    have hns : n.children = pre ++ c :: post := by simpa using slot.split
    rw [hns] at hsearch
    simp only [grow, hns, hsearch, Option.isSome_some, if_true, Option.bind_eq_bind,
      Option.bind_some, Bisect.removeAt_append, Bisect.insertAt_append, Option.getD_some]
    cases grow leaf ls c <;> rfl

/-- What `prune` does on a level: nothing where the slot is empty; otherwise the slot receives what
is left of the child, and the node itself goes when nothing is left of it. -/
theorem prune_cons (leaf : Node V → Option (Node V × α)) (missing : α) {n : Node V} (h : n.Kept P)
    (l : String) (ls : List String) :
    ∃ pre mid post, Slot l n.children pre mid post ∧
      prune leaf missing (l :: ls) n =
        match mid with
        | none => some (some n, missing)
        | some c => (prune leaf missing ls c).map fun r =>
            ((n.setChildren (pre ++ (r.1.toList ++ post))).pruned, r.2) := by
  obtain ⟨pre, mid, post, slot, hsearch⟩ := h.slot l
  refine ⟨pre, mid, post, slot, ?_⟩
  cases mid with
  | none => simp [prune, hsearch]
  | some c =>
    have hns : n.children = pre ++ c :: post := by simpa using slot.split
    rw [hns] at hsearch
    simp only [prune, hns, hsearch, Option.isSome_some, if_true, Option.bind_eq_bind,
      Option.bind_some, Bisect.removeAt_append]
    rcases prune leaf missing ls c with _ | ⟨_ | c', out⟩
    · rfl
    · simp only [Option.bind_some, Option.map_some, Option.toList_none, List.nil_append, pruned]
      split_ifs with he <;> simp [he]
    · -- a node with a child is not empty
      have hne : (n.setChildren (pre ++ c' :: post)).isEmpty = false := by
        cases n <;> simp [setChildren, isEmpty]
      simp [Bisect.insertAt_append, pruned, hne]

/-- `leaf` changes only the values of a node below the root, from `vs` to `vs'` with `R vs vs' out`. -/
def Edits (P : List V → Prop) (leaf : Node V → Option (Node V × α))
    (R : List V → List V → α → Prop) : Prop :=
  ∀ m m' out, P m.values → leaf m = some (m', out) →
    m.asName = some m.label ∧ m'.asName = m.asName ∧ m'.children = m.children ∧
      R m.values m'.values out

variable {R : List V → List V → α → Prop}

theorem Edits.kept (hleaf : Edits P leaf R) (hR : ∀ vs vs' out, P vs → R vs vs' out → P vs')
    {m m' : Node V} {out : α} (h : m.Kept P) (hm : leaf m = some (m', out)) :
    m'.Kept P ∧ m'.asName = m.asName := by
  obtain ⟨-, hname, hchildren, hvals⟩ := hleaf m m' out h.held hm
  exact ⟨⟨hchildren ▸ h.below, hchildren ▸ h.names, hR _ _ _ h.held hvals⟩, hname⟩

theorem label_of_asName {n : Node V} {l : String} (h : n.asName = some l) : n.label = l := by
  cases n with
  | root => simp [asName] at h
  | child => simpa [asName, label] using h

/-- A way down to a place that holds a value afterwards leaves no empty node behind. -/
theorem grow_kept (hleaf : Edits P leaf R) (hP : P [])
    (hR : ∀ vs vs' out, P vs → R vs vs' out → P vs' ∧ vs' ≠ []) {ls : List String}
    {n n' : Node V} {out : α} (h : n.Kept P) (hg : grow leaf ls n = some (n', out)) :
    n'.Kept P ∧ n'.asName = n.asName ∧ n'.isEmpty = false := by
  induction ls generalizing n n' with
  | nil =>
    obtain ⟨hkept, hname⟩ := hleaf.kept (fun vs vs' out hv hr => (hR vs vs' out hv hr).1) h hg
    refine ⟨hkept, hname, ?_⟩
    have hne := (hR _ _ _ h.held (hleaf _ _ _ h.held hg).2.2.2).2
    cases n' with
    | root => rfl
    | child name children values =>
      have hne' : values ≠ [] := hne
      simp [isEmpty, hne']
  | cons l ls ih =>
    obtain ⟨pre, mid, post, slot, heq⟩ := grow_cons leaf h l ls
    rw [heq, Option.map_eq_some_iff] at hg
    obtain ⟨⟨c', out'⟩, hc', hn'⟩ := hg
    simp only [Prod.mk.injEq] at hn'
    obtain ⟨rfl, rfl⟩ := hn'
    have hstart := h.start hP slot
    obtain ⟨hkept, hname, hne⟩ := ih hstart.1 hc'
    rw [hstart.2] at hname
    have hlabel := label_of_asName hname
    have hproper : c'.Proper P := proper_iff.mpr ⟨hlabel.symm ▸ hname, hkept, hne⟩
    refine ⟨h.fill slot ?_, by simp, ?_⟩
    · rintro _ ⟨⟩
      exact ⟨hproper, hlabel⟩
    · cases n <;> simp [setChildren, isEmpty]

/-- What is left after a way down that removes nodes is not empty. -/
theorem prune_kept (hleaf : Edits P leaf R) (hR : ∀ vs vs' out, P vs → R vs vs' out → P vs')
    {missing : α} {ls : List String} {n n' : Node V} {out : α} (h : n.Kept P)
    (hne : n.isEmpty = false) (hp : prune leaf missing ls n = some (some n', out)) :
    n'.Kept P ∧ n'.asName = n.asName ∧ n'.isEmpty = false := by
  induction ls generalizing n n' with
  | nil =>
    simp only [prune, Option.bind_eq_bind, Option.bind_eq_some_iff] at hp
    obtain ⟨⟨m, out'⟩, hm, hp⟩ := hp
    obtain ⟨hkept, hname⟩ := hleaf.kept hR h hm
    dsimp only at hp
    split_ifs at hp with hempty
    · simp at hp
    · simp only [Option.some.injEq, Prod.mk.injEq] at hp
      obtain ⟨rfl, -⟩ := hp
      exact ⟨hkept, hname, by simpa using hempty⟩
  | cons l ls ih =>
    obtain ⟨pre, mid, post, slot, heq⟩ := prune_cons leaf missing h l ls
    rw [heq] at hp
    cases mid with
    | none =>
      simp only [Option.some.injEq, Prod.mk.injEq] at hp
      obtain ⟨rfl, -⟩ := hp
      exact ⟨h, rfl, hne⟩
    | some c =>
      simp only [Option.map_eq_some_iff, Prod.mk.injEq, Prod.exists] at hp
      obtain ⟨r, out', hr, hpruned, rfl⟩ := hp
      unfold pruned at hpruned
      split_ifs at hpruned with hempty
      obtain rfl := Option.some.inj hpruned
      refine ⟨h.fill slot ?_, by simp, by simpa using hempty⟩
      intro c' hc'
      obtain rfl := Option.mem_def.mp hc'
      have hc := proper_iff.mp (h.below c (slot.mem_mid c rfl))
      obtain ⟨hkept, hname, hne'⟩ := ih hc.2.1 hc.2.2 hr
      rw [hc.1, slot.name c rfl] at hname
      have hlabel := label_of_asName hname
      exact ⟨proper_iff.mpr ⟨hlabel.symm ▸ hname, hkept, hne'⟩, hlabel⟩

end Walks

/-- A retained message replaces the one before. -/
def Replaces (v : V) (vs vs' : List V) (first : Bool) : Prop :=
  vs' = [v] ∧ first = vs.isEmpty

/-- The only value goes. -/
def RemovesOnly (vs vs' : List V) (missing : Bool) : Prop :=
  (∃ v, vs = [v]) ∧ vs' = [] ∧ missing = false

def AtMostOne (vs : List V) : Prop := vs.length ≤ 1

theorem replaceValue_edits (v : V) : Edits P (replaceValue v) (Replaces v) := by
  rintro (ns | ⟨name, ns, _ | ⟨w, ws⟩⟩) m' out - h
  · simp [replaceValue] at h
  · simp only [replaceValue, Option.some.injEq, Prod.mk.injEq] at h
    obtain ⟨rfl, rfl⟩ := h
    exact ⟨rfl, rfl, rfl, rfl, rfl⟩
  · simp only [replaceValue, Option.some.injEq, Prod.mk.injEq] at h
    obtain ⟨rfl, rfl⟩ := h
    exact ⟨rfl, rfl, rfl, rfl, rfl⟩

theorem removeTopic_edits : Edits P (removeTopic : Node V → _) RemovesOnly := by
  rintro (ns | ⟨name, ns, _ | ⟨w, _ | ⟨x, ws⟩⟩⟩) m' out - h
  · simp [removeTopic] at h
  · simp [removeTopic] at h
  · simp only [removeTopic, Option.some.injEq, Prod.mk.injEq] at h
    obtain ⟨rfl, rfl⟩ := h
    exact ⟨rfl, rfl, rfl, ⟨w, rfl⟩, rfl, rfl⟩
  · simp [removeTopic] at h

theorem Replaces.atMostOne {v : V} {vs vs' : List V} {first : Bool} (h : Replaces v vs vs' first) :
    AtMostOne vs' ∧ vs' ≠ [] := by
  rw [h.1]
  exact ⟨le_rfl, by simp⟩

theorem RemovesOnly.atMostOne {vs vs' : List V} {missing : Bool} (h : RemovesOnly vs vs' missing) :
    AtMostOne vs' := by
  rw [h.2.1]
  exact Nat.zero_le _

section Ordered
variable [Ord V]

def InOrder (vs : List V) : Prop := vs.Pairwise fun a b => compare a b = .lt

/-- A value is put in its place, unless one of the same rank is there: that one stays. -/
def Inserts (v : V) (vs vs' : List V) (out : Bool × Bool) : Prop :=
  out.1 = vs.isEmpty ∧
    if out.2 then vs' = vs ∧ ∃ w ∈ vs, compare w v = .eq
    else ∃ l r, vs = l ++ r ∧ vs' = l ++ v :: r ∧
      (∀ w ∈ l, compare w v = .lt) ∧ ∀ w ∈ r, compare w v = .gt

/-- A value goes. Whether it is the value meant is a matter of equality if it is the only one, and of
rank if it is one of several. -/
def Removes [BEq V] (v : V) (vs vs' : List V) (out : Bool × Bool) : Prop :=
  out.1 = vs'.isEmpty ∧
    if out.2 then vs' = vs ∧ vs ≠ [] ∧
      if vs.length = 1 then ∀ w ∈ vs, (w == v) = false else ∀ w ∈ vs, compare w v ≠ .eq
    else ∃ l w r, vs = l ++ w :: r ∧ vs' = l ++ r ∧
      if vs.length = 1 then (w == v) = true else compare w v = .eq

section Search
variable [Std.TransOrd V]

theorem InOrder.eq_of_compare {vs : List V} (h : InOrder vs) {a b : V} (ha : a ∈ vs) (hb : b ∈ vs)
    (heq : compare a b = .eq) : a = b := by
  by_contra hne
  have hlt : compare a b = .lt ∨ compare b a = .lt := by
    induction h with
    | nil => simp at ha
    | @cons x xs hx hxs ih =>
      rcases List.mem_cons.mp ha with hax | hax
      · rcases List.mem_cons.mp hb with hbx | hbx
        · exact absurd (hax.trans hbx.symm) hne
        · exact .inl (hax ▸ hx b hbx)
      · rcases List.mem_cons.mp hb with hbx | hbx
        · exact .inr (hbx ▸ hx a hax)
        · exact ih hax hbx
  rcases hlt with hlt | hlt
  · rw [heq] at hlt
    cases hlt
  · rw [Std.OrientedCmp.eq_comm.mp heq] at hlt
    cases hlt

theorem InOrder.nodup {vs : List V} (h : InOrder vs) : vs.Nodup := by
  refine h.imp fun {a b} hlt he => ?_
  simp [he] at hlt

/-- The search for a value among sorted values. -/
theorem searchValue_answer {vs : List V} (h : InOrder vs) (v : V) :
    ∃ a, Bisect.search (fun x => some (compare x v)) vs = some a ∧
      Bisect.Answer (fun x => compare x v) vs a :=
  Bisect.search_answer (fun _ _ => rfl) (Bisect.ascending_of_sorted h v)

theorem insertValue_edits (v : V) : Edits InOrder (insertValue v) (Inserts v) := by
  rintro (ns | ⟨name, ns, _ | ⟨w, ws⟩⟩) m' out hvals h
  · simp [insertValue] at h
  · simp only [insertValue, Option.some.injEq, Prod.mk.injEq] at h
    obtain ⟨rfl, rfl⟩ := h
    exact ⟨rfl, rfl, rfl, rfl, [], [], rfl, rfl, by simp, by simp⟩
  · obtain ⟨a, ha, hans⟩ := searchValue_answer hvals v
    simp only [values] at ha hans
    simp only [insertValue, ha, Option.bind_eq_bind, Option.bind_some] at h
    cases a with
    | ok i =>
      simp only [Option.some.injEq, Prod.mk.injEq] at h
      obtain ⟨rfl, rfl⟩ := h
      obtain ⟨l, x, r, hsplit, -, hx⟩ := hans
      exact ⟨rfl, rfl, rfl, rfl, rfl, x, by rw [values, hsplit]; simp, hx⟩
    | error i =>
      obtain ⟨l, r, hsplit, rfl, hl, hr⟩ := hans
      simp only [hsplit, Bisect.insertAt_append, Option.bind_some, Option.some.injEq,
        Prod.mk.injEq] at h
      obtain ⟨rfl, rfl⟩ := h
      exact ⟨rfl, rfl, rfl, rfl, l, r, hsplit, rfl, hl, hr⟩

theorem removeValue_edits [BEq V] (v : V) : Edits InOrder (removeValue v) (Removes v) := by
  rintro (ns | ⟨name, ns, _ | ⟨w, _ | ⟨x, ws⟩⟩⟩) m' out hvals h
  · simp [removeValue] at h
  · simp [removeValue] at h
  · simp only [removeValue] at h
    split_ifs at h with heq
    all_goals
      simp only [Option.some.injEq, Prod.mk.injEq] at h
      obtain ⟨rfl, rfl⟩ := h
    · exact ⟨rfl, rfl, rfl, rfl, [], w, [], rfl, rfl, by simpa [values] using heq⟩
    · exact ⟨rfl, rfl, rfl, rfl, rfl, by simp [values], by simpa [values] using heq⟩
  · obtain ⟨a, ha, hans⟩ := searchValue_answer hvals v
    simp only [values] at ha hans
    simp only [removeValue, ha, Option.bind_eq_bind, Option.bind_some] at h
    cases a with
    | ok i =>
      obtain ⟨l, y, r, hsplit, rfl, hy⟩ := hans
      simp only [hsplit, Bisect.removeAt_append, Option.bind_some, Option.some.injEq,
        Prod.mk.injEq] at h
      obtain ⟨rfl, rfl⟩ := h
      have hlen := congrArg List.length hsplit
      have hne : l ++ r ≠ [] := by
        intro hnil
        have := congrArg List.length hnil
        simp only [List.length_cons, List.length_append, List.length_nil] at hlen this
        omega
      refine ⟨rfl, rfl, rfl, ?_, l, y, r, hsplit, rfl, ?_⟩
      · simpa [values] using hne
      · simpa [values] using hy
    | error i =>
      simp only [Option.some.injEq, Prod.mk.injEq] at h
      obtain ⟨rfl, rfl⟩ := h
      obtain ⟨l, r, hsplit, -, hl, hr⟩ := hans
      refine ⟨rfl, rfl, rfl, rfl, rfl, by simp [values], ?_⟩
      rw [if_neg (by simp [values]), values, hsplit]
      intro y hy
      rcases List.mem_append.mp hy with hy | hy
      · simp [hl y hy]
      · simp [hr y hy]

theorem Inserts.inOrder {v : V} {vs vs' : List V} {out : Bool × Bool} (hvs : InOrder vs)
    (h : Inserts v vs vs' out) : InOrder vs' ∧ vs' ≠ [] := by
  obtain ⟨first, rep⟩ := out
  cases rep with
  | true =>
    obtain ⟨-, rfl, w, hw, -⟩ := h
    exact ⟨hvs, List.ne_nil_of_mem hw⟩
  | false =>
    obtain ⟨-, l, r, rfl, rfl, hl, hr⟩ := h
    obtain ⟨hpl, hpr, hcross⟩ := List.pairwise_append.mp hvs
    refine ⟨List.pairwise_append.mpr ⟨hpl, List.pairwise_cons.mpr ⟨?_, hpr⟩, ?_⟩, by simp⟩
    · exact fun x hx => Std.OrientedCmp.gt_iff_lt.mp (hr x hx)
    · intro x hx y hy
      rcases List.mem_cons.mp hy with rfl | hy
      · exact hl x hx
      · exact hcross x hx y hy

end Search

theorem Removes.ne_nil [BEq V] {v : V} {vs vs' : List V} {out : Bool × Bool}
    (h : Removes v vs vs' out) : vs ≠ [] := by
  obtain ⟨last, miss⟩ := out
  cases miss with
  | true => exact h.2.2.1
  | false =>
    obtain ⟨-, l, w, r, rfl, -⟩ := h
    simp

theorem Removes.inOrder [BEq V] {v : V} {vs vs' : List V} {out : Bool × Bool} (hvs : InOrder vs)
    (h : Removes v vs vs' out) : InOrder vs' := by
  obtain ⟨last, miss⟩ := out
  cases miss with
  | true =>
    obtain ⟨-, rfl, -⟩ := h
    exact hvs
  | false =>
    obtain ⟨-, l, w, r, rfl, rfl, -⟩ := h
    exact hvs.sublist ((List.Sublist.refl l).append (List.sublist_cons_self w r))

/-- `sub` and `unsub` are ways down of the general form. -/
theorem sub_eq_grow (ls : List String) (v : V) (n : Node V) :
    sub ls v n = grow (insertValue v) ls n := by
  induction ls generalizing n with
  | nil => rfl
  | cons l ls ih =>
    simp only [sub, grow, ih]

theorem unsub_eq_prune [BEq V] (ls : List String) (v : V) (n : Node V) :
    unsub ls v n = prune (removeValue v) (false, true) ls n := by
  induction ls generalizing n with
  | nil => rfl
  | cons l ls ih =>
    simp only [unsub, prune, ih]
    rcases searchName l n.children with _ | (_ | off)
    · rfl
    · rfl
    · simp only [Option.bind_eq_bind, Option.bind_some]
      rcases Bisect.removeAt n.children off with _ | ⟨c, ns⟩
      · rfl
      · simp only [Option.bind_some]
        rcases prune (removeValue v) (false, true) ls c with _ | ⟨_ | c', last, miss⟩ <;> rfl

/-- A node below the root, in order all the way down. -/
inductive Branch : Node V → Prop where
  | mk {name : String} {children : List (Node V)} {values : List V}
      (below : ∀ n ∈ children, Branch n)
      (names : children.Pairwise fun a b => compare a.label b.label = .lt)
      (vals : values.Pairwise fun a b => compare a b = .lt) :
      Branch (.child name children values)

/-- A list of siblings in order. -/
structure Forest (ns : List (Node V)) : Prop where
  below : ∀ n ∈ ns, Branch n
  names : ns.Pairwise fun a b => compare a.label b.label = .lt

/-- The root or a branch, in order. -/
structure Sorted (n : Node V) : Prop where
  forest : Forest n.children
  vals : n.values.Pairwise fun a b => compare a b = .lt

theorem branch_iff {n : Node V} : n.Branch ↔ n.asName = some n.label ∧ n.Sorted := by
  constructor
  · rintro ⟨below, names, vals⟩
    exact ⟨rfl, ⟨below, names⟩, vals⟩
  · intro h
    cases n with
    | root => exact absurd h.1 (by simp [asName])
    | child => exact .mk h.2.forest.below h.2.forest.names h.2.vals

theorem Proper.branch (hP : ∀ vs, P vs → InOrder vs) {n : Node V} (h : n.Proper P) : n.Branch := by
  induction h with
  | mk below names held inhabited ih => exact .mk ih names (hP _ held)

theorem Kept.sorted (hP : ∀ vs, P vs → InOrder vs) {n : Node V} (h : n.Kept P) : n.Sorted :=
  ⟨⟨fun c hc => (h.below c hc).branch hP, h.names⟩, hP _ h.held⟩

end Ordered
end Node

/-- The tree of a trie: in order, without empty nodes below the root. -/
structure Inner.Kept {V : Type} (P : List V → Prop) (inner : Inner V) : Prop where
  kept : inner.root.Kept P
  isRoot : inner.root.asName = none

/-- A trie whose root is the root of an ordered tree. -/
structure Inner.Sorted {V : Type} [Ord V] (inner : Inner V) : Prop where
  sorted : inner.root.Sorted
  isRoot : inner.root.asName = none

namespace Inner
variable {V : Type} {P : List V → Prop}

theorem Kept.not_isEmpty {inner : Inner V} (h : inner.Kept P) : inner.root.isEmpty = false := by
  have hroot := h.isRoot
  cases hr : inner.root with
  | root => rfl
  | child => simp [hr, Node.asName] at hroot

theorem kept_default (hP : P []) : (Inner.default : Inner V).Kept P :=
  ⟨Node.kept_root_nil hP, rfl⟩

section Cases
variable {κ : Type} [IterTopicPath κ] {key : κ} {v : V} {inner inner' : Inner V}

theorem doSubscribe_cases [Ord V] (h : inner.doSubscribe key v = some inner') :
    ∃ out, Node.grow (Node.insertValue v) (iterTopicPath key) inner.root =
        some (inner'.root, out) ∧
      inner'.stats.count =
        if out.1 then saturatingAdd inner.stats.count 1 else inner.stats.count := by
  simp only [doSubscribe, Node.sub_eq_grow, Option.bind_eq_bind, Option.bind_eq_some_iff] at h
  obtain ⟨⟨root, first, rep⟩, hsub, h⟩ := h
  obtain rfl := Option.some.inj h
  refine ⟨(first, rep), hsub, ?_⟩
  cases first <;> cases rep <;> rfl

theorem doUnsubscribe_cases [Ord V] [BEq V] (h : inner.doUnsubscribe key v = some inner') :
    ∃ out, Node.prune (Node.removeValue v) (false, true) (iterTopicPath key) inner.root =
        some (some inner'.root, out) ∧
      inner'.stats.count = if out.1 then inner.stats.count - 1 else inner.stats.count := by
  simp only [doUnsubscribe, Node.unsub_eq_prune, Option.bind_eq_bind,
    Option.bind_eq_some_iff] at h
  obtain ⟨⟨_, last, miss⟩, hunsub, root, rfl, h⟩ := h
  obtain rfl := Option.some.inj h
  refine ⟨(last, miss), hunsub, ?_⟩
  cases last <;> cases miss <;> rfl

theorem doSet_cases (h : inner.doSet key v = some inner') :
    ∃ first, Node.grow (Node.replaceValue v) (iterTopicPath key) inner.root =
        some (inner'.root, first) ∧
      inner'.stats.count =
        if first then saturatingAdd inner.stats.count 1 else inner.stats.count := by
  simp only [doSet, Node.set, Option.bind_eq_bind, Option.bind_eq_some_iff] at h
  obtain ⟨⟨root, first⟩, hset, h⟩ := h
  obtain rfl := Option.some.inj h
  refine ⟨first, hset, ?_⟩
  cases first <;> rfl

theorem doRemove_cases (h : inner.doRemove key = some inner') :
    ∃ missing, Node.prune Node.removeTopic true (iterTopicPath key) inner.root =
        some (some inner'.root, missing) ∧
      inner'.stats.count = if missing then inner.stats.count else inner.stats.count - 1 := by
  simp only [doRemove, Node.remove, Option.bind_eq_bind, Option.bind_eq_some_iff] at h
  obtain ⟨⟨_, missing⟩, hremove, root, rfl, h⟩ := h
  obtain rfl := Option.some.inj h
  refine ⟨missing, hremove, ?_⟩
  cases missing <;> rfl

theorem Kept.doSubscribe [Ord V] [Std.TransOrd V] (hi : inner.Kept Node.InOrder)
    (h : inner.doSubscribe key v = some inner') : inner'.Kept Node.InOrder := by
  obtain ⟨out, hgrow, -⟩ := doSubscribe_cases h
  obtain ⟨hkept, hname, -⟩ := Node.grow_kept (Node.insertValue_edits v) List.Pairwise.nil
    (fun _ _ _ => Node.Inserts.inOrder) hi.kept hgrow
  exact ⟨hkept, hname.trans hi.isRoot⟩

theorem Kept.doUnsubscribe [Ord V] [Std.TransOrd V] [BEq V] (hi : inner.Kept Node.InOrder)
    (h : inner.doUnsubscribe key v = some inner') : inner'.Kept Node.InOrder := by
  obtain ⟨out, hprune, -⟩ := doUnsubscribe_cases h
  obtain ⟨hkept, hname, -⟩ := Node.prune_kept (Node.removeValue_edits v)
    (fun _ _ _ => Node.Removes.inOrder) hi.kept hi.not_isEmpty hprune
  exact ⟨hkept, hname.trans hi.isRoot⟩

theorem Kept.doSet (hi : inner.Kept Node.AtMostOne) (h : inner.doSet key v = some inner') :
    inner'.Kept Node.AtMostOne := by
  obtain ⟨first, hgrow, -⟩ := doSet_cases h
  obtain ⟨hkept, hname, -⟩ := Node.grow_kept (Node.replaceValue_edits v) (Nat.zero_le _)
    (fun _ _ _ _ hr => hr.atMostOne) hi.kept hgrow
  exact ⟨hkept, hname.trans hi.isRoot⟩

theorem Kept.doRemove (hi : inner.Kept Node.AtMostOne) (h : inner.doRemove key = some inner') :
    inner'.Kept Node.AtMostOne := by
  obtain ⟨missing, hprune, -⟩ := doRemove_cases h
  obtain ⟨hkept, hname, -⟩ := Node.prune_kept Node.removeTopic_edits
    (fun _ _ _ _ hr => hr.atMostOne) hi.kept hi.not_isEmpty hprune
  exact ⟨hkept, hname.trans hi.isRoot⟩

end Cases
end Inner

section Runs
variable {V : Type}

theorem RetainOp.apply_kept {inner inner' : Inner V} {op : RetainOp V}
    (h : inner.Kept Node.AtMostOne) (hs : op.apply inner = some inner') :
    inner'.Kept Node.AtMostOne := by
  cases op with
  | set levels value => exact h.doSet hs
  | remove levels => exact h.doRemove hs

theorem RetainOp.run_kept {ops : List (RetainOp V)} {inner : Inner V}
    (h : RetainOp.run Inner.default ops = some inner) : inner.Kept Node.AtMostOne :=
  Transition.run_invariant (fun _ _ _ => RetainOp.apply_kept) (Inner.kept_default (Nat.zero_le _)) h

/-- A lookup writes back the tree it found, with another count of lookups. -/
theorem Inner.matchTopicName_frame {κ : Type} [IterTopicPath κ] {key : κ} {inner inner' : Inner V}
    {vals : List V} (h : inner.matchTopicName key = some (vals, inner')) :
    inner'.root = inner.root ∧ inner'.stats.count = inner.stats.count := by
  simp only [matchTopicName, Option.bind_eq_bind, Option.bind_eq_some_iff] at h
  obtain ⟨res, -, hres⟩ := h
  cases res with
  | none =>
    cases hres
    exact ⟨rfl, rfl⟩
  | some vals =>
    cases hres
    exact ⟨rfl, rfl⟩

variable [Ord V] [BEq V] [Std.TransOrd V]

theorem TrieOp.apply_kept {inner inner' : Inner V} {op : TrieOp V} (h : inner.Kept Node.InOrder)
    (hs : op.apply inner = some inner') : inner'.Kept Node.InOrder := by
  cases op with
  | subscribe levels value => exact h.doSubscribe hs
  | unsubscribe levels value => exact h.doUnsubscribe hs
  | matchTopicName levels =>
    obtain ⟨⟨vals, i⟩, hmatch, rfl⟩ := Option.map_eq_some_iff.mp hs
    obtain ⟨hroot, -⟩ := Inner.matchTopicName_frame hmatch
    exact ⟨hroot ▸ h.kept, hroot ▸ h.isRoot⟩

theorem TrieOp.Reachable.kept {inner : Inner V} (h : TrieOp.Reachable inner) :
    inner.Kept Node.InOrder := by
  obtain ⟨ops, hr⟩ := h
  exact Transition.run_invariant (fun _ _ _ => TrieOp.apply_kept)
    (Inner.kept_default List.Pairwise.nil) hr

theorem TrieOp.Reachable.sorted {inner : Inner V} (h : TrieOp.Reachable inner) :
    inner.Sorted :=
  ⟨h.kept.kept.sorted fun _ => id, h.kept.isRoot⟩

end Runs
end Mqtr
