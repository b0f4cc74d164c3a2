import Mqtr.Core.Multimap
import Mqtr.Core.Transition

/-! Parties that pass messages on. Each keeps a back log for every other party, takes all of it at
once, and sends it message by message to bounded queues; what a queue has no room for goes back to the
back log. Nothing is lost, duplicated or reordered between two parties. -/

namespace Relay
open Std

variable {ι μ : Type}

/-- The values of one key, in their order. -/
def ofKey [DecidableEq ι] (k : ι) (l : List (ι × μ)) : List μ :=
  (l.filter fun e => e.1 = k).map Prod.snd

section OfKey
variable [DecidableEq ι]

@[simp] theorem ofKey_nil (k : ι) : ofKey k ([] : List (ι × μ)) = [] := rfl

@[simp] theorem ofKey_append (k : ι) (l₁ l₂ : List (ι × μ)) :
    ofKey k (l₁ ++ l₂) = ofKey k l₁ ++ ofKey k l₂ := by
  simp [ofKey]

theorem ofKey_cons (k : ι) (e : ι × μ) (l : List (ι × μ)) :
    ofKey k (e :: l) = if e.1 = k then e.2 :: ofKey k l else ofKey k l := by
  unfold ofKey
  by_cases h : e.1 = k
  · simp [h]
  · simp [h]

theorem mem_ofKey {k : ι} {l : List (ι × μ)} {m : μ} : m ∈ ofKey k l ↔ (k, m) ∈ l := by
  simp [ofKey]

end OfKey

/-- `received` and `appended` record what a party has taken from its queue, with the senders, and what
it has put into its back logs, with the targets. -/
structure State (ι μ : Type) [Ord ι] where
  backLog : ι → ExtTreeMap ι (List μ)
  flushing : ι → List (ι × List μ)
  queue : ι → List (ι × μ)
  received : ι → List (ι × μ)
  appended : ι → List (ι × μ)

inductive Event (ι μ : Type) where
  | append (a b : ι) (m : μ)
  | flush (a : ι)
  | send (a : ι)
  | recv (b : ι)
  deriving DecidableEq, Repr

variable [Ord ι] [TransOrd ι] [DecidableEq ι]

/-- A party that is sending does nothing else. -/
def step (capacity : ι → ℕ) (s : State ι μ) : Event ι μ → Option (State ι μ)
  | .append a b m =>
    if (s.flushing a).isEmpty then
      some { s with
        backLog := Function.update s.backLog a (Multimap.push (s.backLog a) b m)
        appended := Function.update s.appended a (s.appended a ++ [(b, m)]) }
    else none
  | .flush a =>
    if (s.flushing a).isEmpty then
      some { s with
        backLog := Function.update s.backLog a ∅
        flushing := Function.update s.flushing a (s.backLog a).toList }
    else none
  | .send a =>
    match s.flushing a with
    | [] => none
    | (b, []) :: rest =>
      some { s with
        backLog := Function.update s.backLog a ((s.backLog a).insert b [])
        flushing := Function.update s.flushing a rest }
    | (b, m :: ms) :: rest =>
      if (s.queue b).length < capacity b then
        some { s with
          flushing := Function.update s.flushing a ((b, ms) :: rest)
          queue := Function.update s.queue b (s.queue b ++ [(a, m)]) }
      else
        some { s with
          backLog := Function.update s.backLog a ((s.backLog a).insert b (m :: ms))
          flushing := Function.update s.flushing a rest }
  | .recv b =>
    match s.queue b with
    | [] => none
    | e :: rest =>
      some { s with
        queue := Function.update s.queue b rest
        received := Function.update s.received b (s.received b ++ [e]) }

/-- What a party has taken out of its back logs for another and not sent yet. -/
def inFlush (s : State ι μ) (a b : ι) : List μ := (ofKey b (s.flushing a)).flatten

/-- What a party has still to send to another. -/
def unsent (s : State ι μ) (a b : ι) : List μ := inFlush s a b ++ (s.backLog a)[b]?.getD []

structure Inv (s : State ι μ) : Prop where
  keys : ∀ a, (s.flushing a).Pairwise fun e e' => e.1 ≠ e'.1
  apart : ∀ a, ∀ e ∈ s.flushing a, (s.backLog a)[e.1]? = none
  line : ∀ a b, ofKey a (s.received b) ++ ofKey a (s.queue b) ++ unsent s a b =
    ofKey b (s.appended a)

section Steps
variable [LawfulEqOrd ι] {s : State ι μ} {a b : ι} {m : μ} {ms : List μ}
  {rest : List (ι × List μ)}

theorem Inv.append (h : Inv s) (hidle : s.flushing a = []) :
    Inv { s with
      backLog := Function.update s.backLog a (Multimap.push (s.backLog a) b m)
      appended := Function.update s.appended a (s.appended a ++ [(b, m)]) } := by
  refine ⟨h.keys, fun a' e he => ?_, fun a' b' => ?_⟩
  · by_cases ha : a' = a
    · subst ha
      simp [hidle] at he
    · simpa [Function.update_of_ne ha] using h.apart a' e he
  · have hline := h.line a' b'
    by_cases ha : a' = a
    · subst ha
      simp only [unsent, inFlush, hidle, ofKey_nil, List.flatten_nil, List.nil_append,
        Function.update_self, ofKey_append, ofKey_cons, Multimap.getElem?_push] at hline ⊢
      rw [← hline]
      by_cases hb : b = b'
      · subst hb
        simp
      · simp [hb]
    · simpa [unsent, inFlush, Function.update_of_ne ha] using hline

/-- The entries of a map under one key. -/
theorem ofKey_toList (t : ExtTreeMap ι (List μ)) (k : ι) :
    (ofKey k t.toList).flatten = t[k]?.getD [] := by
  have hkeys : t.toList.Pairwise fun e e' => ¬ compare e.1 e'.1 = .eq :=
    ExtTreeMap.distinct_keys_toList
  have hmem (v : List μ) : (k, v) ∈ t.toList ↔ t[k]? = some v :=
    ExtTreeMap.mem_toList_iff_getElem?_eq_some
  have honly : ∀ l : List (ι × List μ), (l.Pairwise fun e e' => ¬ compare e.1 e'.1 = .eq) →
      ∀ v, (k, v) ∈ l → ofKey k l = [v] := by
    intro l hl v hv
    induction l with
    | nil => simp at hv
    | cons e l ih =>
      obtain ⟨hfirst, hrest⟩ := List.pairwise_cons.mp hl
      rw [ofKey_cons]
      rcases List.mem_cons.mp hv with rfl | hv
      · have hnone : ofKey k l = [] := by
          rw [List.eq_nil_iff_forall_not_mem]
          intro w hw
          exact hfirst (k, w) (mem_ofKey.mp hw) ReflCmp.compare_self
        simp [hnone]
      · have hne : e.1 ≠ k := fun he => hfirst (k, v) hv (he ▸ ReflCmp.compare_self)
        rw [if_neg hne]
        exact ih hrest hv
  cases hk : t[k]? with
  | some v => simp [honly _ hkeys v ((hmem v).mpr hk)]
  | none =>
    have hnone : ofKey k t.toList = [] := by
      rw [List.eq_nil_iff_forall_not_mem]
      intro w hw
      rw [mem_ofKey, hmem, hk] at hw
      cases hw
    simp [hnone]

theorem Inv.flush (h : Inv s) (hidle : s.flushing a = []) :
    Inv { s with
      backLog := Function.update s.backLog a ∅
      flushing := Function.update s.flushing a (s.backLog a).toList } := by
  refine ⟨fun a' => ?_, fun a' e he => ?_, fun a' b' => ?_⟩
  · by_cases ha : a' = a
    · subst ha
      simp only [Function.update_self]
      refine List.Pairwise.imp (fun {e e'} hne he => ?_) ExtTreeMap.distinct_keys_toList
      exact hne (he ▸ ReflCmp.compare_self)
    · simpa [Function.update_of_ne ha] using h.keys a'
  · by_cases ha : a' = a
    · subst ha
      simp
    · simp only [Function.update_of_ne ha] at he ⊢
      exact h.apart a' e he
  · have hline := h.line a' b'
    by_cases ha : a' = a
    · subst ha
      simpa [unsent, inFlush, hidle, ofKey_toList] using hline
    · simpa [unsent, inFlush, Function.update_of_ne ha] using hline

omit [LawfulEqOrd ι] in
/-- The keys of what is being sent do not come twice. -/
theorem Inv.ofKey_rest (h : Inv s) (hf : s.flushing a = (b, ms) :: rest) : ofKey b rest = [] := by
  have hkeys := h.keys a
  rw [hf, List.pairwise_cons] at hkeys
  rw [List.eq_nil_iff_forall_not_mem]
  intro w hw
  exact hkeys.1 (b, w) (mem_ofKey.mp hw) rfl

/-- What was not sent goes back to the back log. -/
theorem Inv.reindex (h : Inv s) (hf : s.flushing a = (b, ms) :: rest) :
    Inv { s with
      backLog := Function.update s.backLog a ((s.backLog a).insert b ms)
      flushing := Function.update s.flushing a rest } := by
  have hkeys := h.keys a
  rw [hf, List.pairwise_cons] at hkeys
  refine ⟨fun a' => ?_, fun a' e he => ?_, fun a' b' => ?_⟩
  · by_cases ha : a' = a
    · subst ha
      simpa using hkeys.2
    · simpa [Function.update_of_ne ha] using h.keys a'
  · by_cases ha : a' = a
    · subst ha
      simp only [Function.update_self] at he ⊢
      rw [OrdMap.getElem?_insert, if_neg (hkeys.1 e he)]
      exact h.apart a' e (by rw [hf]; simp [he])
    · simp only [Function.update_of_ne ha] at he ⊢
      exact h.apart a' e he
  · have hline := h.line a' b'
    by_cases ha : a' = a
    · subst ha
      have hnone : (s.backLog a')[b]? = none := h.apart a' (b, ms) (by rw [hf]; simp)
      have hrest := h.ofKey_rest hf
      simp only [unsent, inFlush, hf, ofKey_cons, Function.update_self, OrdMap.getElem?_insert]
        at hline ⊢
      rw [← hline]
      by_cases hb : b = b'
      · subst hb
        simp [hrest, hnone]
      · simp [hb]
    · simpa [unsent, inFlush, Function.update_of_ne ha] using hline

omit [LawfulEqOrd ι] in
theorem Inv.sent (h : Inv s) (hf : s.flushing a = (b, m :: ms) :: rest) :
    Inv { s with
      flushing := Function.update s.flushing a ((b, ms) :: rest)
      queue := Function.update s.queue b (s.queue b ++ [(a, m)]) } := by
  have hkeys := h.keys a
  rw [hf, List.pairwise_cons] at hkeys
  refine ⟨fun a' => ?_, fun a' e he => ?_, fun a' b' => ?_⟩
  · by_cases ha : a' = a
    · subst ha
      simpa using hkeys
    · simpa [Function.update_of_ne ha] using h.keys a'
  · by_cases ha : a' = a
    · subst ha
      simp only [Function.update_self, List.mem_cons] at he
      rcases he with rfl | he
      · exact h.apart a' (b, m :: ms) (by rw [hf]; simp)
      · exact h.apart a' e (by rw [hf]; simp [he])
    · simp only [Function.update_of_ne ha] at he
      exact h.apart a' e he
  · have hline := h.line a' b'
    -- the message leaves the head of what is to be sent and joins the tail of the queue
    by_cases ha : a' = a
    · subst ha
      have hrest := h.ofKey_rest hf
      simp only [unsent, inFlush, hf, ofKey_cons, Function.update_self] at hline ⊢
      rw [← hline]
      by_cases hb : b' = b
      · subst hb
        simp [hrest, ofKey_cons]
      · simp [Function.update_of_ne hb, Ne.symm hb]
    · simp only [unsent, inFlush, Function.update_of_ne ha] at hline ⊢
      rw [← hline]
      by_cases hb : b' = b
      · subst hb
        simp [ofKey_cons, Ne.symm ha]
      · simp [Function.update_of_ne hb]

omit [LawfulEqOrd ι] in
theorem Inv.recv (h : Inv s) {e : ι × μ} {es : List (ι × μ)} (hq : s.queue b = e :: es) :
    Inv { s with
      queue := Function.update s.queue b es
      received := Function.update s.received b (s.received b ++ [e]) } := by
  refine ⟨h.keys, h.apart, fun a' b' => ?_⟩
  have hline := h.line a' b'
  change _ ++ _ ++ unsent s a' b' = _ at hline ⊢
  rw [← hline]
  by_cases hb : b' = b
  · subst hb
    simp only [Function.update_self, hq, ofKey_append, ofKey_cons]
    split_ifs <;> simp
  · simp only [Function.update_of_ne hb]

end Steps

variable [LawfulEqOrd ι]

theorem step_inv {capacity : ι → ℕ} {s s' : State ι μ} {event : Event ι μ} (h : Inv s)
    (hs : step capacity s event = some s') : Inv s' := by
  cases event with
  | append a b m =>
    simp only [step] at hs
    split_ifs at hs with hidle
    obtain rfl := Option.some.inj hs
    exact h.append (List.isEmpty_iff.mp hidle)
  | flush a =>
    simp only [step] at hs
    split_ifs at hs with hidle
    obtain rfl := Option.some.inj hs
    exact h.flush (List.isEmpty_iff.mp hidle)
  | send a =>
    simp only [step] at hs
    rcases hf : s.flushing a with _ | ⟨⟨b, _ | ⟨m, ms⟩⟩, rest⟩
    · simp [hf] at hs
    · simp only [hf] at hs
      obtain rfl := Option.some.inj hs
      exact h.reindex hf
    · simp only [hf] at hs
      split_ifs at hs
      · obtain rfl := Option.some.inj hs
        exact h.sent hf
      · obtain rfl := Option.some.inj hs
        exact h.reindex hf
  | recv b =>
    simp only [step] at hs
    cases hq : s.queue b with
    | nil => simp [hq] at hs
    | cons e es =>
      simp only [hq] at hs
      obtain rfl := Option.some.inj hs
      exact h.recv hq

omit [LawfulEqOrd ι] in
theorem Inv.mem_appended {s : State ι μ} {a b : ι} {m : μ} (h : Inv s) (hm : (a, m) ∈ s.received b) :
    (b, m) ∈ s.appended a := by
  rw [← mem_ofKey, ← h.line a b]
  simp [mem_ofKey, hm]

omit [LawfulEqOrd ι] in
/-- Where what a party appends is ordered, it is received in this order: with a message, everything for
the same party that does not come after it. -/
theorem Inv.received_of_not_after {s : State ι μ} {a b : ι} {m m' : μ} {R : ι × μ → ι × μ → Prop}
    (h : Inv s) (horder : (s.appended a).Pairwise R) (hm : (a, m) ∈ s.received b)
    (hm' : (b, m') ∈ s.appended a) (hnot : ¬ R (b, m) (b, m')) : (a, m') ∈ s.received b := by
  have hkey : (ofKey b (s.appended a)).Pairwise fun n n' => R (b, n) (b, n') := by
    refine List.pairwise_map.mpr ((horder.filter _).imp_of_mem fun {e e'} he he' hR => ?_)
    have hb : e.1 = b := of_decide_eq_true (List.mem_filter.mp he).2
    have hb' : e'.1 = b := of_decide_eq_true (List.mem_filter.mp he').2
    have heq : (b, e.2) = e := by rw [← hb]
    have heq' : (b, e'.2) = e' := by rw [← hb']
    rwa [heq, heq']
  rw [← mem_ofKey, ← h.line a b, List.append_assoc] at hm'
  rw [← h.line a b, List.append_assoc] at hkey
  rcases List.mem_append.mp hm' with hgot | hlater
  · exact mem_ofKey.mp hgot
  · exact absurd ((List.pairwise_append.mp hkey).2.2 m (mem_ofKey.mpr hm) m' hlater) hnot

omit [LawfulEqOrd ι] in
/-- A party that is not sending can append a list of messages, one after another. -/
theorem run_append_all {capacity : ι → ℕ} {s : State ι μ} {a : ι} (hidle : s.flushing a = [])
    (l : List (ι × μ)) :
    Transition.run (step capacity) s (l.map fun e => .append a e.1 e.2) =
      some { s with
        backLog := Function.update s.backLog a
          (l.foldl (fun t e => Multimap.push t e.1 e.2) (s.backLog a))
        appended := Function.update s.appended a (s.appended a ++ l) } := by
  induction l generalizing s with
  | nil => simp [Transition.run]
  | cons e l ih =>
    simp only [List.map_cons, Transition.run, step, hidle, List.isEmpty_nil, if_true,
      Option.bind_some]
    refine (ih ?_).trans ?_
    · exact hidle
    · simp

end Relay
