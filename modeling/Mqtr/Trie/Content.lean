import Mqtr.Trie.Match
import Mqtr.Wire.Publication

/-! A trie as a map from paths to values. An update changes the values of its own path and no
others, and the counter of topics follows. -/
namespace Mqtr

namespace Node
variable {V : Type}

theorem valuesAt_cons (l : String) (ls : List String) (n : Node V) :
    n.valuesAt (l :: ls) = (n.children.find? (·.label = l)).elim [] (valuesAt ls) := by
  rw [valuesAt]
  cases n.children.find? (·.label = l) <;> rfl

theorem valuesAt_newNode (l : String) (ls : List String) : (newNode l : Node V).valuesAt ls = [] := by
  cases ls <;> rfl

/-- Without children and values there is nothing to find. -/
theorem valuesAt_of_isEmpty {n : Node V} (h : n.isEmpty = true) (ks : List String) :
    n.valuesAt ks = [] := by
  cases n with
  | root => simp [isEmpty] at h
  | child name children values =>
    simp only [isEmpty, List.length_eq_zero_iff, decide_eq_true_eq] at h
    obtain ⟨rfl, rfl⟩ := h
    exact valuesAt_newNode name ks

theorem valuesAt_pruned (n : Node V) (ks : List String) :
    n.pruned.elim [] (valuesAt ks) = n.valuesAt ks := by
  unfold pruned
  split_ifs with h
  · exact (valuesAt_of_isEmpty h ks).symm
  · rfl

namespace Slot
variable {l : String} {ns pre post : List (Node V)} {mid mid' : Option (Node V)}

theorem find_fill (s : Slot l ns pre mid post) (hl : ∀ c ∈ mid', c.label = l) (k : String) :
    (pre ++ (mid'.toList ++ post)).find? (·.label = k) =
      if k = l then mid' else ns.find? (·.label = k) := by
  have hmid {m : Option (Node V)} (hm : ∀ c ∈ m, c.label = l) :
      m.toList.find? (·.label = k) = if k = l then m else none := by
    cases m with
    | none => simp
    | some c => simp [hm c rfl, eq_comm]
  rw [s.split]
  simp only [List.find?_append, hmid hl, hmid s.name]
  split_ifs with hk
  · subst hk
    have hpre : pre.find? (·.label = k) = none := by
      rw [List.find?_eq_none]
      intro x hx he
      have := s.lt x hx
      simp_all
    have hpost : post.find? (·.label = k) = none := by
      rw [List.find?_eq_none]
      intro x hx he
      have := s.gt x hx
      simp_all
    simp [hpre, hpost]
  · rfl

theorem valuesAt_fill {n : Node V} (s : Slot l n.children pre mid post)
    (hl : ∀ c ∈ mid', c.label = l) (k : String) (ks : List String) :
    (n.setChildren (pre ++ (mid'.toList ++ post))).valuesAt (k :: ks) =
      if k = l then mid'.elim [] (valuesAt ks) else n.valuesAt (k :: ks) := by
  rw [valuesAt_cons, valuesAt_cons, children_setChildren, s.find_fill hl]
  split_ifs <;> rfl

theorem valuesAt_mid {n : Node V} (s : Slot l n.children pre mid post) (ks : List String) :
    n.valuesAt (l :: ks) = mid.elim [] (valuesAt ks) := by
  have hfind := s.find_fill s.name l
  rw [← s.split, if_pos rfl] at hfind
  rw [valuesAt_cons, hfind]

theorem valuesAt_start {n : Node V} (s : Slot l n.children pre mid post) (ks : List String) :
    (mid.getD (newNode l)).valuesAt ks = n.valuesAt (l :: ks) := by
  rw [s.valuesAt_mid]
  cases mid with
  | none => exact valuesAt_newNode l ks
  | some c => rfl

end Slot

theorem Kept.valuesAt {P : List V → Prop} {n : Node V} (h : n.Kept P) (hP : P [])
    (ls : List String) : P (n.valuesAt ls) := by
  induction ls generalizing n with
  | nil => exact h.held
  | cons l ls ih =>
    obtain ⟨pre, mid, post, slot, -⟩ := h.slot l
    rw [slot.valuesAt_mid]
    cases mid with
    | none => exact hP
    | some c => exact ih (proper_iff.mp (h.below c (slot.mem_mid c rfl))).2.1

section Walks
variable {α : Type} {P : List V → Prop} {leaf : Node V → Option (Node V × α)}
  {R : List V → List V → α → Prop}

theorem Edits.valuesAt (hleaf : Edits P leaf R) {m m' : Node V} {out : α} (hm : P m.values)
    (h : leaf m = some (m', out)) {ks : List String} (hks : ks ≠ []) :
    m'.valuesAt ks = m.valuesAt ks := by
  cases ks with
  | nil => exact absurd rfl hks
  | cons k ks => rw [valuesAt_cons, valuesAt_cons, (hleaf m m' out hm h).2.2.1]

/-- The ways down do not rename a node. -/
theorem grow_asName (hleaf : Edits P leaf R) {ls : List String} {n n' : Node V} {out : α}
    (h : n.Kept P) (hg : grow leaf ls n = some (n', out)) : n'.asName = n.asName := by
  cases ls with
  | nil => exact (hleaf n n' out h.held hg).2.1
  | cons l ls =>
    obtain ⟨pre, mid, post, -, heq⟩ := grow_cons leaf h l ls
    rw [heq, Option.map_eq_some_iff] at hg
    obtain ⟨r, -, hr⟩ := hg
    cases hr
    simp

theorem prune_asName (hleaf : Edits P leaf R) {missing : α} {ls : List String} {n n' : Node V}
    {out : α} (h : n.Kept P) (hp : prune leaf missing ls n = some (some n', out)) :
    n'.asName = n.asName := by
  cases ls with
  | nil =>
    simp only [prune, Option.bind_eq_bind, Option.bind_eq_some_iff] at hp
    obtain ⟨⟨m, out'⟩, hm, hp⟩ := hp
    dsimp only at hp
    split_ifs at hp
    · cases hp
    · cases hp
      exact (hleaf n n' out h.held hm).2.1
  | cons l ls =>
    obtain ⟨pre, mid, post, -, heq⟩ := prune_cons leaf missing h l ls
    rw [heq] at hp
    cases mid with
    | none =>
      cases hp
      rfl
    | some c =>
      obtain ⟨r, -, hr⟩ := Option.map_eq_some_iff.mp hp
      simp only [Prod.mk.injEq, pruned] at hr
      obtain ⟨hr, -⟩ := hr
      split_ifs at hr
      obtain rfl := Option.some.inj hr
      simp

/-- `grow` changes the values of its path, and no others. -/
theorem grow_valuesAt (hleaf : Edits P leaf R) (hP : P []) {ls : List String} {n n' : Node V}
    {out : α} (h : n.Kept P) (hg : grow leaf ls n = some (n', out)) :
    R (n.valuesAt ls) (n'.valuesAt ls) out ∧ ∀ ks, ks ≠ ls → n'.valuesAt ks = n.valuesAt ks := by
  induction ls generalizing n n' with
  | nil => exact ⟨(hleaf n n' out h.held hg).2.2.2, fun ks hks => hleaf.valuesAt h.held hg hks⟩
  | cons l ls ih =>
    obtain ⟨pre, mid, post, slot, heq⟩ := grow_cons leaf h l ls
    rw [heq, Option.map_eq_some_iff] at hg
    obtain ⟨⟨c', out'⟩, hc', hn'⟩ := hg
    cases hn'
    obtain ⟨hkept, hname⟩ := h.start hP slot
    obtain ⟨hedit, hrest⟩ := ih hkept hc'
    have hlabel : ∀ c ∈ some c', c.label = l := by
      rintro _ ⟨⟩
      exact label_of_asName ((grow_asName hleaf hkept hc').trans hname)
    refine ⟨?_, fun ks hks => ?_⟩
    · rw [slot.valuesAt_fill hlabel, if_pos rfl, ← slot.valuesAt_start]
      exact hedit
    · cases ks with
      | nil => simp [valuesAt]
      | cons k ks =>
        rw [slot.valuesAt_fill hlabel]
        split_ifs with hk
        · subst hk
          rw [← slot.valuesAt_start]
          exact hrest ks (by simpa using hks)
        · rfl

/-- `prune` changes the values of its path, and no others; it may find nothing there. -/
theorem prune_valuesAt (hleaf : Edits P leaf R) {missing : α} {ls : List String} {n : Node V}
    {r : Option (Node V)} {out : α} (h : n.Kept P)
    (hp : prune leaf missing ls n = some (r, out)) :
    (R (n.valuesAt ls) (r.elim [] (valuesAt ls)) out ∨
      out = missing ∧ n.valuesAt ls = [] ∧ r.elim [] (valuesAt ls) = []) ∧
      ∀ ks, ks ≠ ls → r.elim [] (valuesAt ks) = n.valuesAt ks := by
  induction ls generalizing n r with
  | nil =>
    simp only [prune, Option.bind_eq_bind, Option.bind_eq_some_iff] at hp
    obtain ⟨⟨m, out'⟩, hm, hp⟩ := hp
    have hr : r = m.pruned ∧ out = out' := by
      unfold pruned
      dsimp only at hp
      split_ifs at hp ⊢ <;> cases hp <;> exact ⟨rfl, rfl⟩
    obtain ⟨rfl, rfl⟩ := hr
    simp only [valuesAt_pruned]
    exact ⟨.inl (hleaf n m out h.held hm).2.2.2, fun ks hks => hleaf.valuesAt h.held hm hks⟩
  | cons l ls ih =>
    obtain ⟨pre, mid, post, slot, heq⟩ := prune_cons leaf missing h l ls
    rw [heq] at hp
    cases mid with
    | none =>
      cases hp
      have hnil := slot.valuesAt_mid ls
      exact ⟨.inr ⟨rfl, hnil, hnil⟩, fun ks hks => rfl⟩
    | some c =>
      obtain ⟨⟨c', out'⟩, hc', hr⟩ := Option.map_eq_some_iff.mp hp
      cases hr
      simp only [valuesAt_pruned]
      have hc := proper_iff.mp (h.below c (slot.mem_mid c rfl))
      obtain ⟨hedit, hrest⟩ := ih hc.2.1 hc'
      have hlabel : ∀ d ∈ c', d.label = l := by
        intro d hd
        obtain rfl := Option.mem_def.mp hd
        exact label_of_asName ((prune_asName hleaf hc.2.1 hc').trans
          (hc.1.trans (congrArg some (slot.name c rfl))))
      refine ⟨?_, fun ks hks => ?_⟩
      · rw [slot.valuesAt_fill hlabel, if_pos rfl, slot.valuesAt_mid]
        exact hedit
      · cases ks with
        | nil => simp [valuesAt]
        | cons k ks =>
          rw [slot.valuesAt_fill hlabel]
          split_ifs with hk
          · subst hk
            rw [slot.valuesAt_mid]
            exact hrest ks (by simpa using hks)
          · rfl

end Walks

/-- The node at the end of a path. -/
def nodeAt : List String → Node V → Option (Node V)
  | [], n => some n
  | l :: ls, n => (n.children.find? (·.label = l)).bind (nodeAt ls)

theorem Slot.nodeAt_mid {l : String} {pre post : List (Node V)} {mid : Option (Node V)}
    {n : Node V} (s : Slot l n.children pre mid post) (ls : List String) :
    n.nodeAt (l :: ls) = mid.bind (nodeAt ls) := by
  have hfind := s.find_fill s.name l
  rw [← s.split, if_pos rfl] at hfind
  rw [nodeAt, hfind]

theorem valuesAt_append (ls ks : List String) (n : Node V) :
    n.valuesAt (ls ++ ks) = (n.nodeAt ls).elim [] (valuesAt ks) := by
  induction ls generalizing n with
  | nil => rfl
  | cons l ls ih =>
    rw [List.cons_append, valuesAt_cons, nodeAt]
    cases n.children.find? (·.label = l) with
    | none => rfl
    | some c => exact ih c

theorem Kept.nodeAt_proper {P : List V → Prop} {n m : Node V} (h : n.Kept P) {ls : List String}
    (hls : ls ≠ []) (hm : n.nodeAt ls = some m) : m.Proper P := by
  induction ls generalizing n with
  | nil => exact absurd rfl hls
  | cons l ls ih =>
    obtain ⟨c, hc, hm⟩ := Option.bind_eq_some_iff.mp hm
    have hproper := h.below c (List.mem_of_find?_eq_some hc)
    cases ls with
    | nil =>
      obtain rfl := Option.some.inj hm
      exact hproper
    | cons k ks => exact ih (proper_iff.mp hproper).2.1 (by simp) hm

/-- Below every node there is a value. -/
theorem Proper.exists_value {P : List V → Prop} {n : Node V} (h : n.Proper P) :
    ∃ ks, n.valuesAt ks ≠ [] := by
  induction h with
  | @mk name children values below names held inhabited ih =>
    rcases inhabited with hne | hne
    · obtain ⟨c, hc⟩ := List.exists_mem_of_ne_nil children hne
      obtain ⟨ks, hks⟩ := ih c hc
      refine ⟨c.label :: ks, ?_⟩
      rw [valuesAt_cons]
      change (children.find? (·.label = c.label)).elim [] (valuesAt ks) ≠ []
      rw [find_label names hc]
      exact hks
    · exact ⟨[], hne⟩

section Walks
variable {α : Type} {P : List V → Prop} {leaf : Node V → Option (Node V × α)}

theorem grow_isSome (hleaf : ∀ m, m.asName ≠ none → (leaf m).isSome) (hP : P []) {n : Node V}
    (h : n.Kept P) {ls : List String} (hn : n.asName ≠ none ∨ ls ≠ []) :
    (grow leaf ls n).isSome := by
  induction ls generalizing n with
  | nil => exact hleaf n (by simpa using hn)
  | cons l ls ih =>
    obtain ⟨pre, mid, post, slot, heq⟩ := grow_cons leaf h l ls
    obtain ⟨hkept, hname⟩ := h.start hP slot
    rw [heq, Option.isSome_map]
    exact ih hkept (.inl (by simp [hname]))

/-- Nothing aborts on the way down but the end of the path. -/
theorem prune_isSome_iff {missing : α} {n : Node V} (h : n.Kept P) (ls : List String) :
    (prune leaf missing ls n).isSome ↔ ∀ m ∈ n.nodeAt ls, (leaf m).isSome := by
  induction ls generalizing n with
  | nil =>
    simp only [prune, nodeAt, Option.mem_def, Option.some.injEq, forall_eq']
    cases leaf n with
    | none => simp
    | some r =>
      simp only [Option.bind_eq_bind, Option.bind_some]
      split_ifs <;> simp
  | cons l ls ih =>
    obtain ⟨pre, mid, post, slot, heq⟩ := prune_cons leaf missing h l ls
    rw [heq, slot.nodeAt_mid]
    cases mid with
    | none => simp
    | some c =>
      have hc := proper_iff.mp (h.below c (slot.mem_mid c rfl))
      simp only [Option.isSome_map, Option.bind_some]
      exact ih hc.2.1

/-- With a leaf that fails on a node without values, a removal returns exactly if its path has values
or nothing has values below it. -/
theorem prune_isSome_iff_valuesAt {missing : α} {n : Node V} (h : n.Kept P) {ls : List String}
    (hls : ls ≠ []) (hleaf : ∀ m : Node V, m.Proper P → ((leaf m).isSome ↔ m.values ≠ [])) :
    (prune leaf missing ls n).isSome ↔
      (n.valuesAt ls = [] → ∀ ks, n.valuesAt (ls ++ ks) = []) := by
  rw [prune_isSome_iff h]
  have hvals := valuesAt_append ls [] n
  rw [List.append_nil] at hvals
  simp only [hvals, valuesAt_append]
  cases hnode : n.nodeAt ls with
  | none => simp
  | some m =>
    have hproper := h.nodeAt_proper hls hnode
    obtain ⟨ks, hks⟩ := hproper.exists_value
    simp only [Option.mem_def, Option.some.injEq, forall_eq', Option.elim_some, hleaf m hproper]
    constructor
    · intro hne hnil
      exact absurd hnil hne
    · intro hall hnil
      exact hks (hall hnil ks)

/-- The root itself stays. -/
theorem prune_root {missing : α} {n : Node V} (h : n.Kept P) (hroot : n.asName = none)
    {ls : List String} (hls : ls ≠ []) {r : Option (Node V)} {out : α}
    (hp : prune leaf missing ls n = some (r, out)) : ∃ n', r = some n' := by
  cases ls with
  | nil => exact absurd rfl hls
  | cons l ls =>
    obtain ⟨pre, mid, post, -, heq⟩ := prune_cons leaf missing h l ls
    rw [heq] at hp
    cases mid with
    | none =>
      cases hp
      exact ⟨n, rfl⟩
    | some c =>
      obtain ⟨r', -, hr⟩ := Option.map_eq_some_iff.mp hp
      cases hr
      cases n with
      | root ns => exact ⟨_, rfl⟩
      | child => simp [asName] at hroot

end Walks

/-- The paths that hold a value. -/
def keys (n : Node V) : Set (List String) := {ls | n.valuesAt ls ≠ []}

/-- An update of one path counts there and nowhere else. -/
theorem ncard_keys {n n' : Node V} {ls : List String} (hfin : n.keys.Finite)
    (hrest : ∀ ks, ks ≠ ls → n'.valuesAt ks = n.valuesAt ks) :
    n'.keys.Finite ∧
      n'.keys.ncard + (if n.valuesAt ls = [] then 0 else 1) =
        n.keys.ncard + (if n'.valuesAt ls = [] then 0 else 1) := by
  have hdiff : n'.keys \ {ls} = n.keys \ {ls} := by
    ext ks
    simp only [keys, Set.mem_sdiff, Set.mem_ofPred_eq, Set.mem_singleton_iff]
    constructor
    · rintro ⟨hne, hks⟩
      exact ⟨hrest ks hks ▸ hne, hks⟩
    · rintro ⟨hne, hks⟩
      exact ⟨(hrest ks hks).symm ▸ hne, hks⟩
  have hfin' : n'.keys.Finite := Set.Finite.of_sdiff (hdiff ▸ hfin.sdiff) (Set.finite_singleton ls)
  have hcount {m : Node V} (hm : m.keys.Finite) :
      m.keys.ncard = (m.keys \ {ls}).ncard + (if m.valuesAt ls = [] then 0 else 1) := by
    split_ifs with hnil
    · rw [Set.sdiff_singleton_eq_self (by simp [keys, hnil]), Nat.add_zero]
    · exact (Set.ncard_sdiff_singleton_add_one (show ls ∈ m.keys from hnil) hm).symm
  refine ⟨hfin', ?_⟩
  rw [hcount hfin, hcount hfin', hdiff]
  omega

theorem keys_root_nil : (Node.root [] : Node V).keys = ∅ := by
  ext ks
  cases ks <;> simp [keys, valuesAt, values, children]

end Node

namespace Inner
variable {V : Type}

/-- The counter of topics has room for one more. -/
def Fits (inner : Inner V) : Prop := inner.root.keys.ncard < usizeMax

structure Counted (inner : Inner V) : Prop where
  finite : inner.root.keys.Finite
  count : inner.stats.count = inner.root.keys.ncard

theorem counted_default : (Inner.default : Inner V).Counted :=
  ⟨by simp [default, Node.keys_root_nil], by simp [default, Node.keys_root_nil]⟩

variable {κ : Type} [IterTopicPath κ] {key : κ} {v : V} {inner inner' : Inner V}

/-- An update that leaves a value at its path, with its report whether there was none before. -/
theorem Counted.added {ls : List String} {first : Bool} (h : inner.Counted) (hfits : inner.Fits)
    (hfirst : first = (inner.root.valuesAt ls).isEmpty) (hne : inner'.root.valuesAt ls ≠ [])
    (hrest : ∀ ks, ks ≠ ls → inner'.root.valuesAt ks = inner.root.valuesAt ks)
    (hcount : inner'.stats.count =
      if first then saturatingAdd inner.stats.count 1 else inner.stats.count) : inner'.Counted := by
  obtain ⟨hfin, hcard⟩ := Node.ncard_keys h.finite hrest
  refine ⟨hfin, ?_⟩
  rw [hcount, h.count, hfirst]
  rw [if_neg hne] at hcard
  unfold Fits at hfits
  by_cases hnil : inner.root.valuesAt ls = []
  · rw [if_pos hnil] at hcard
    simp only [hnil, List.isEmpty_nil, if_true, saturatingAdd]
    omega
  · rw [if_neg hnil] at hcard
    simp only [List.isEmpty_iff, hnil, if_false]
    omega

/-- An update that leaves no value more at its path, with its report whether the last one went. -/
theorem Counted.removed {ls : List String} (last : Bool) (h : inner.Counted)
    (hlast : last = true ↔ inner.root.valuesAt ls ≠ [] ∧ inner'.root.valuesAt ls = [])
    (hold : inner'.root.valuesAt ls ≠ [] → inner.root.valuesAt ls ≠ [])
    (hrest : ∀ ks, ks ≠ ls → inner'.root.valuesAt ks = inner.root.valuesAt ks)
    (hcount : inner'.stats.count = if last then inner.stats.count - 1 else inner.stats.count) :
    inner'.Counted := by
  obtain ⟨hfin, hcard⟩ := Node.ncard_keys h.finite hrest
  refine ⟨hfin, ?_⟩
  rw [hcount, h.count]
  by_cases hnil : inner.root.valuesAt ls = []
  · have hnil' : inner'.root.valuesAt ls = [] := by
      by_contra hne
      exact hold hne hnil
    rw [if_pos hnil, if_pos hnil'] at hcard
    rw [if_neg fun hl => (hlast.mp hl).1 hnil]
    omega
  · rw [if_neg hnil] at hcard
    by_cases hnil' : inner'.root.valuesAt ls = []
    · rw [if_pos hnil'] at hcard
      rw [if_pos (hlast.mpr ⟨hnil, hnil'⟩)]
      omega
    · rw [if_neg hnil'] at hcard
      rw [if_neg fun hl => hnil' (hlast.mp hl).2]
      omega

theorem doSubscribe_valuesAt [Ord V] [Std.TransOrd V] (hi : inner.Kept Node.InOrder)
    (h : inner.doSubscribe key v = some inner') :
    ∃ out, Node.Inserts v (inner.root.valuesAt (iterTopicPath key))
        (inner'.root.valuesAt (iterTopicPath key)) out ∧
      (∀ ks, ks ≠ iterTopicPath key → inner'.root.valuesAt ks = inner.root.valuesAt ks) ∧
      inner'.stats.count =
        if out.1 then saturatingAdd inner.stats.count 1 else inner.stats.count := by
  obtain ⟨out, hgrow, hcount⟩ := doSubscribe_cases h
  obtain ⟨hedit, hrest⟩ :=
    Node.grow_valuesAt (Node.insertValue_edits v) List.Pairwise.nil hi.kept hgrow
  exact ⟨out, hedit, hrest, hcount⟩

theorem doUnsubscribe_valuesAt [Ord V] [Std.TransOrd V] [BEq V] (hi : inner.Kept Node.InOrder)
    (h : inner.doUnsubscribe key v = some inner') :
    ∃ out, (Node.Removes v (inner.root.valuesAt (iterTopicPath key))
          (inner'.root.valuesAt (iterTopicPath key)) out ∨
        out = (false, true) ∧ inner.root.valuesAt (iterTopicPath key) = [] ∧
          inner'.root.valuesAt (iterTopicPath key) = []) ∧
      (∀ ks, ks ≠ iterTopicPath key → inner'.root.valuesAt ks = inner.root.valuesAt ks) ∧
      inner'.stats.count = if out.1 then inner.stats.count - 1 else inner.stats.count := by
  obtain ⟨out, hprune, hcount⟩ := doUnsubscribe_cases h
  obtain ⟨hedit, hrest⟩ := Node.prune_valuesAt (Node.removeValue_edits v) hi.kept hprune
  exact ⟨out, hedit, hrest, hcount⟩

/-- Subscribing adds the value to its path, if what is there of the same rank is the value itself. -/
theorem mem_doSubscribe [Ord V] [Std.TransOrd V] (hi : inner.Kept Node.InOrder)
    (h : inner.doSubscribe key v = some inner')
    (hsame : ∀ w ∈ inner.root.valuesAt (iterTopicPath key), compare w v = .eq → w = v)
    (ks : List String) (u : V) :
    u ∈ inner'.root.valuesAt ks ↔
      u ∈ inner.root.valuesAt ks ∨ ks = iterTopicPath key ∧ u = v := by
  obtain ⟨⟨first, rep⟩, hedit, hrest, -⟩ := doSubscribe_valuesAt hi h
  by_cases hks : ks = iterTopicPath key
  · subst hks
    cases rep with
    | true =>
      obtain ⟨-, hvs, w, hw, heq⟩ := hedit
      have hv := hsame w hw heq
      subst hv
      rw [hvs]
      constructor
      · exact .inl
      · rintro (hu | ⟨-, rfl⟩)
        · exact hu
        · exact hw
    | false =>
      obtain ⟨-, l, r, hvs, hvs', -⟩ := hedit
      rw [hvs, hvs']
      simp only [List.mem_append, List.mem_cons, true_and]
      tauto
  · rw [hrest ks hks]
    simp [hks]

/-- Unsubscribing a value that is there removes it and nothing else. -/
theorem mem_doUnsubscribe [Ord V] [Std.TransOrd V] [BEq V] [ReflBEq V]
    (hi : inner.Kept Node.InOrder) (h : inner.doUnsubscribe key v = some inner')
    (hv : v ∈ inner.root.valuesAt (iterTopicPath key)) (ks : List String) (u : V) :
    u ∈ inner'.root.valuesAt ks ↔
      u ∈ inner.root.valuesAt ks ∧ ¬ (ks = iterTopicPath key ∧ u = v) := by
  have horder : Node.InOrder (inner.root.valuesAt (iterTopicPath key)) :=
    hi.kept.valuesAt List.Pairwise.nil _
  obtain ⟨⟨last, miss⟩, hedit | ⟨-, hnil, -⟩, hrest, -⟩ := doUnsubscribe_valuesAt hi h
  · by_cases hks : ks = iterTopicPath key
    · subst hks
      cases miss with
      | true =>
        -- the value meant is there, so that it is not missed
        obtain ⟨-, -, -, hmiss⟩ := hedit
        split_ifs at hmiss
        · simpa using hmiss v hv
        · exact absurd Std.ReflCmp.compare_self (hmiss v hv)
      | false =>
        obtain ⟨-, l, w, r, hvs, hvs', hw⟩ := hedit
        have hwv : w = v := by
          split_ifs at hw with hlen
          · obtain ⟨x, hx⟩ := List.length_eq_one_iff.mp hlen
            rw [hx, List.mem_singleton] at hv
            have hmem : w ∈ [x] := by
              rw [← hx, hvs]
              simp
            rw [hv, List.mem_singleton.mp hmem]
          · exact horder.eq_of_compare (by rw [hvs]; simp) hv hw
        subst hwv
        have hnodup := horder.nodup
        rw [hvs] at hnodup ⊢
        rw [hvs']
        have hout := List.nodup_middle.mp hnodup
        rw [List.nodup_cons] at hout
        simp only [List.mem_append, List.mem_cons, true_and]
        constructor
        · intro hu
          exact ⟨by tauto, fun he => hout.1 (he ▸ List.mem_append.mpr hu)⟩
        · tauto
    · rw [hrest ks hks]
      simp [hks]
  · rw [hnil] at hv
    simp at hv

theorem doSet_valuesAt (hi : inner.Kept Node.AtMostOne) (h : inner.doSet key v = some inner') :
    inner'.root.valuesAt (iterTopicPath key) = [v] ∧
      (∀ ks, ks ≠ iterTopicPath key → inner'.root.valuesAt ks = inner.root.valuesAt ks) ∧
      inner'.stats.count =
        if (inner.root.valuesAt (iterTopicPath key)).isEmpty then saturatingAdd inner.stats.count 1
        else inner.stats.count := by
  obtain ⟨first, hgrow, hcount⟩ := doSet_cases h
  obtain ⟨⟨hval, rfl⟩, hrest⟩ :=
    Node.grow_valuesAt (Node.replaceValue_edits v) (Nat.zero_le _) hi.kept hgrow
  exact ⟨hval, hrest, hcount⟩

theorem doRemove_valuesAt (hi : inner.Kept Node.AtMostOne) (h : inner.doRemove key = some inner') :
    inner'.root.valuesAt (iterTopicPath key) = [] ∧
      (∀ ks, ks ≠ iterTopicPath key → inner'.root.valuesAt ks = inner.root.valuesAt ks) ∧
      inner'.stats.count =
        if inner.root.valuesAt (iterTopicPath key) = [] then inner.stats.count
        else inner.stats.count - 1 := by
  obtain ⟨missing, hprune, hcount⟩ := doRemove_cases h
  obtain ⟨⟨⟨w, hw⟩, hnil, rfl⟩ | ⟨rfl, hw, hnil⟩, hrest⟩ :=
    Node.prune_valuesAt Node.removeTopic_edits hi.kept hprune
  · exact ⟨hnil, hrest, by simpa [hw] using hcount⟩
  · exact ⟨hnil, hrest, by simpa [hw] using hcount⟩

theorem doSet_isSome (hi : inner.Kept Node.AtMostOne) (hkey : iterTopicPath key ≠ []) :
    (inner.doSet key v).isSome := by
  have hleaf : ∀ m : Node V, m.asName ≠ none → (Node.replaceValue v m).isSome := by
    rintro (ns | ⟨name, ns, _ | ⟨w, ws⟩⟩) hm
    · simp [Node.asName] at hm
    · rfl
    · rfl
  obtain ⟨r, hr⟩ := Option.isSome_iff_exists.mp
    (Node.grow_isSome hleaf (Nat.zero_le _) hi.kept (.inr hkey))
  simp [doSet, Node.set, hr]

/-- A removal aborts exactly if its topic has no value and is the beginning of another that has. -/
theorem doRemove_isSome_iff (hi : inner.Kept Node.AtMostOne) (hkey : iterTopicPath key ≠ []) :
    (inner.doRemove key).isSome ↔
      (inner.root.valuesAt (iterTopicPath key) = [] →
        ∀ ks, inner.root.valuesAt (iterTopicPath key ++ ks) = []) := by
  have hprune : (inner.doRemove key).isSome ↔
      (Node.prune Node.removeTopic true (iterTopicPath key) inner.root).isSome := by
    cases hp : Node.prune Node.removeTopic true (iterTopicPath key) inner.root with
    | none => simp [doRemove, Node.remove, hp]
    | some r =>
      obtain ⟨n', hn'⟩ := Node.prune_root hi.kept hi.isRoot hkey hp
      simp [doRemove, Node.remove, hp, hn']
  rw [hprune]
  refine Node.prune_isSome_iff_valuesAt hi.kept hkey ?_
  rintro m ⟨below, names, held, inhabited⟩
  rename_i values
  rcases values with _ | ⟨w, _ | ⟨x, ws⟩⟩
  · simp [Node.removeTopic, Node.values]
  · simp [Node.removeTopic, Node.values]
  · simp [Node.AtMostOne] at held

end Inner

section Runs
variable {V : Type}

theorem RetainOp.apply_counted {inner inner' : Inner V} {op : RetainOp V}
    (hi : inner.Kept Node.AtMostOne) (h : inner.Counted) (hfits : inner.Fits)
    (hs : op.apply inner = some inner') : inner'.Counted := by
  cases op with
  | set levels value =>
    obtain ⟨hval, hrest, hcount⟩ := Inner.doSet_valuesAt hi hs
    exact h.added hfits rfl (by simp [hval]) hrest hcount
  | remove levels =>
    obtain ⟨hnil, hrest, hcount⟩ := Inner.doRemove_valuesAt hi hs
    refine h.removed (!(inner.root.valuesAt (iterTopicPath levels)).isEmpty) ?_ ?_ hrest ?_
    · simp [hnil]
    · simp [hnil]
    · simp [hcount]

variable [Ord V] [BEq V] [Std.TransOrd V]

theorem TrieOp.apply_counted {inner inner' : Inner V} {op : TrieOp V}
    (hi : inner.Kept Node.InOrder) (h : inner.Counted) (hfits : inner.Fits)
    (hs : op.apply inner = some inner') : inner'.Counted := by
  cases op with
  | subscribe levels value =>
    obtain ⟨out, hedit, hrest, hcount⟩ := Inner.doSubscribe_valuesAt hi hs
    have hold := hi.kept.valuesAt List.Pairwise.nil (iterTopicPath levels)
    exact h.added hfits hedit.1 (hedit.inOrder hold).2 hrest hcount
  | unsubscribe levels value =>
    obtain ⟨out, hedit | ⟨rfl, hnil, hnil'⟩, hrest, hcount⟩ := Inner.doUnsubscribe_valuesAt hi hs
    · refine h.removed _ ?_ (fun _ => hedit.ne_nil) hrest hcount
      rw [hedit.1]
      simp [hedit.ne_nil]
    · refine h.removed _ ?_ (fun hne => absurd hnil' hne) hrest hcount
      simp [hnil]
  | matchTopicName levels =>
    obtain ⟨⟨vals, i⟩, hmatch, rfl⟩ := Option.map_eq_some_iff.mp hs
    obtain ⟨hroot, hcount⟩ := Inner.matchTopicName_frame hmatch
    exact ⟨hroot ▸ h.finite, hcount.trans (hroot ▸ h.count)⟩

end Runs

/-- Both kinds of tries keep their nodes in order and without empty ones, and count the topics that
hold a value, as long as the counter has room for them. -/
theorem trie_invariant :
    (∀ (ops : List (TrieOp Subscription)) (inner : Inner Subscription),
      TrieOp.run Inner.default ops = some inner →
        inner.Kept Node.InOrder ∧
          (Transition.Along TrieOp.apply (fun i _ => i.Fits) Inner.default ops → inner.Counted)) ∧
    (∀ (ops : List (RetainOp Publish)) (inner : Inner Publish),
      RetainOp.run Inner.default ops = some inner →
        inner.Kept Node.AtMostOne ∧
          (Transition.Along RetainOp.apply (fun i _ => i.Fits) Inner.default ops →
            inner.Counted)) := by
  constructor
  · intro ops inner hrun
    have hinit : (Inner.default : Inner Subscription).Kept Node.InOrder :=
      Inner.kept_default List.Pairwise.nil
    refine ⟨Transition.run_invariant (fun _ _ _ => TrieOp.apply_kept) hinit hrun, fun hfits => ?_⟩
    have hboth := Transition.run_invariant_of_along
      (P := fun i : Inner Subscription => i.Kept Node.InOrder ∧ i.Counted)
      (fun i op i' h hf hs => ⟨TrieOp.apply_kept h.1 hs, TrieOp.apply_counted h.1 h.2 hf hs⟩)
      ⟨hinit, Inner.counted_default⟩ hfits hrun
    exact hboth.2
  · intro ops inner hrun
    have hinit : (Inner.default : Inner Publish).Kept Node.AtMostOne :=
      Inner.kept_default (Nat.zero_le _)
    refine ⟨RetainOp.run_kept hrun, fun hfits => ?_⟩
    have hboth := Transition.run_invariant_of_along
      (P := fun i : Inner Publish => i.Kept Node.AtMostOne ∧ i.Counted)
      (fun i op i' h hf hs => ⟨RetainOp.apply_kept h.1 hs, RetainOp.apply_counted h.1 h.2 hf hs⟩)
      ⟨hinit, Inner.counted_default⟩ hfits hrun
    exact hboth.2

/-- The counter shows whether it has room. -/
theorem Inner.Counted.fits {V : Type} {inner : Inner V} (h : inner.Counted)
    (hcount : inner.stats.count < usizeMax) : inner.Fits := by
  rw [Fits, ← h.count]
  exact hcount

theorem trie_invariant_several :
    ∃ inner, TrieOp.run Inner.default severalSubscriptions = some inner ∧ inner.stats.count = 4 ∧
      inner.Kept Node.InOrder ∧ inner.Counted := by
  have heval : (TrieOp.run Inner.default severalSubscriptions).map (fun inner => inner.stats.count) =
      some 4 := by decide
  obtain ⟨inner, hrun, hcount⟩ := Option.map_eq_some_iff.mp heval
  obtain ⟨hkept, hcounted⟩ := trie_invariant.1 _ _ hrun
  have hinit : (Inner.default : Inner Subscription).Kept Node.InOrder ∧
      (Inner.default : Inner Subscription).Counted :=
    ⟨Inner.kept_default List.Pairwise.nil, Inner.counted_default⟩
  have hroom : Transition.Along TrieOp.apply
      (fun (i : Inner Subscription) _ => i.stats.count < usizeMax) Inner.default
      severalSubscriptions := by decide
  refine ⟨inner, hrun, hcount, hkept, hcounted ?_⟩
  refine Transition.along_of_invariant
    (P := fun i : Inner Subscription => i.Kept Node.InOrder ∧ i.Counted) ?_ ?_ hinit hroom
  · intro i op i' h hlt hs
    exact ⟨TrieOp.apply_kept h.1 hs, TrieOp.apply_counted h.1 h.2 (h.2.fits hlt) hs⟩
  · intro i op h hlt
    exact h.2.fits hlt

end Mqtr
