import Mqtr.Broker.LocalAck

/-! The books of the messages that a shard has routed for its clients: the counter of sequence numbers, the
messages that are not acknowledged, and for every shard the last number routed to it and the last one it
has acknowledged. The books are kept by the calls of the shard in any order. -/
namespace Mqtr
open Outcome Std

namespace Shard

/-- Every message that is kept went to a shard to which its number, or a later one, was routed. -/
def RoutedUpTo (self : Shard) : Prop :=
  ∀ (k : UInt64) (msg : Message), self.cinp.unacks[k]? = some msg →
    ∃ b routed received, msg.targetShard = some b ∧
      self.cinp.timestamp[b]? = some (routed, received) ∧ k ≤ routed

/-- No acknowledgement is outstanding. -/
def Quiescent (self : Shard) : Prop :=
  ∀ (b : UInt32) (routed received : UInt64),
    self.cinp.timestamp[b]? = some (routed, received) → received = routed

/-- `remove_unacks` returns all the messages that are kept, in the order of their numbers, and keeps
none. -/
def ReleasesAll (self : Shard) : Prop :=
  ∃ entries : List (UInt64 × Message), entries.Pairwise (fun e e' => e.1 < e'.1) ∧
    (∀ k msg, (k, msg) ∈ entries ↔ self.cinp.unacks[k]? = some msg) ∧
    self.removeUnacks.1 = entries.map Prod.snd ∧ self.removeUnacks.2.cinp.unacks = ∅

theorem toList_increasing {α : Type} (m : ExtTreeMap UInt64 α) :
    m.toList.Pairwise fun e e' => e.1 < e'.1 := by
  apply m.ordered_keys_toList.imp
  intro e e' hlt
  exact Std.compare_eq_lt.mp hlt

/-- The cut-off of `remove_unacks` is the number that some shard has acknowledged, unless there is none
below the greatest. -/
theorem lastReceivedAck_attained (s : Shard) :
    s.lastReceivedAck = 0xFFFFFFFFFFFFFFFF ∨
      ∃ (b : UInt32) (routed : UInt64), s.cinp.timestamp[b]? = some (routed, s.lastReceivedAck) := by
  have hfold : ∀ (l : List (UInt32 × UInt64 × UInt64)) (init : UInt64),
      l.foldl (fun last entry => min last entry.2.2) init = init ∨
        ∃ e ∈ l, l.foldl (fun last entry => min last entry.2.2) init = e.2.2 := by
    intro l
    induction l with
    | nil => simp
    | cons e l ih =>
      intro init
      rw [List.foldl_cons]
      rcases ih (min init e.2.2) with h | ⟨e', he', h⟩
      · rcases Std.MinEqOr.min_eq_or init e.2.2 with hmin | hmin
        · exact .inl (h.trans hmin)
        · exact .inr ⟨e, List.mem_cons_self, h.trans hmin⟩
      · exact .inr ⟨e', List.mem_cons_of_mem _ he', h⟩
  rcases hfold s.cinp.timestamp.toList 0xFFFFFFFFFFFFFFFF with h | ⟨⟨b, routed, received⟩, he, h⟩
  · exact .inl h
  · refine .inr ⟨b, routed, ?_⟩
    have hentry := ExtTreeMap.mem_toList_iff_getElem?_eq_some.mp he
    rw [lastReceivedAck, h]
    exact hentry

/-- What `remove_unacks` keeps and returns when the cut-off is not the greatest number. -/
theorem removeUnacks_of_lt {s : Shard} (h : s.lastReceivedAck ≠ 0xFFFFFFFFFFFFFFFF) :
    s.removeUnacks.1 =
        (s.cinp.unacks.toList.filter fun entry => entry.1 < s.lastReceivedAck).map Prod.snd ∧
      ∀ k : UInt64, s.removeUnacks.2.cinp.unacks[k]? =
        if k < s.lastReceivedAck then none else s.cinp.unacks[k]? := by
  unfold removeUnacks
  rw [if_neg h]
  refine ⟨rfl, fun k => ?_⟩
  rw [OrdMap.getElem?_foldl_erase]
  by_cases hk : k < s.lastReceivedAck
  · rw [if_pos hk]
    split_ifs with hmem
    · rfl
    · by_contra hsome
      obtain ⟨msg, hmsg⟩ := Option.ne_none_iff_exists'.mp hsome
      apply hmem
      refine List.mem_map.mpr ⟨(k, msg), List.mem_filter.mpr ⟨?_, by simpa using hk⟩, rfl⟩
      exact ExtTreeMap.mem_toList_iff_getElem?_eq_some.mpr hmsg
  · rw [if_neg hk, if_neg]
    rintro hmem
    obtain ⟨e, he, rfl⟩ := List.mem_map.mp hmem
    exact hk (by simpa using (List.mem_filter.mp he).2)

/-- Nothing is kept exactly if the cut-off is beyond every number that was. -/
theorem removeUnacks_empty_iff (s : Shard) :
    s.removeUnacks.2.cinp.unacks = ∅ ↔ ∀ k ∈ s.cinp.unacks, k < s.lastReceivedAck ∧
      s.lastReceivedAck ≠ 0xFFFFFFFFFFFFFFFF := by
  by_cases hlast : s.lastReceivedAck = 0xFFFFFFFFFFFFFFFF
  · have hkept : s.removeUnacks.2.cinp.unacks = s.cinp.unacks := by
      unfold removeUnacks
      rw [if_pos hlast]
    rw [hkept, ExtTreeMap.eq_empty_iff_forall_not_mem]
    simp [hlast]
  · rw [ExtTreeMap.eq_empty_iff_forall_not_mem]
    simp only [ExtTreeMap.mem_iff_isSome_getElem?, (removeUnacks_of_lt hlast).2]
    constructor
    · intro h k hk
      have hnone := h k
      split_ifs at hnone with hlt
      · exact ⟨hlt, hlast⟩
      · exact absurd hk hnone
    · intro h k hsome
      split_ifs at hsome with hlt
      · cases hsome
      · exact hlt (h k hsome).1

theorem releasesAll_iff_empty (s : Shard) :
    s.ReleasesAll ↔ s.removeUnacks.2.cinp.unacks = ∅ := by
  constructor
  · rintro ⟨_, -, -, -, hempty⟩
    exact hempty
  · intro hempty
    refine ⟨s.cinp.unacks.toList, toList_increasing _,
      fun k msg => ExtTreeMap.mem_toList_iff_getElem?_eq_some, ?_, hempty⟩
    have hbelow := (removeUnacks_empty_iff s).mp hempty
    by_cases hlast : s.lastReceivedAck = 0xFFFFFFFFFFFFFFFF
    · have hnone : s.cinp.unacks = ∅ :=
        ExtTreeMap.eq_empty_iff_forall_not_mem.mpr fun k hk => (hbelow k hk).2 hlast
      simp [removeUnacks, hlast, hnone]
    · rw [(removeUnacks_of_lt hlast).1, List.filter_eq_self.mpr]
      intro e he
      have hentry := ExtTreeMap.mem_toList_iff_getElem?_eq_some.mp he
      exact decide_eq_true (hbelow e.1 (OrdMap.mem_of_getElem? hentry)).1

theorem lt_lastReceivedAck_iff (s : Shard) (k : UInt64) :
    k < s.lastReceivedAck ∧ s.lastReceivedAck ≠ 0xFFFFFFFFFFFFFFFF ↔
      (∀ (b : UInt32) (routed received : UInt64),
        s.cinp.timestamp[b]? = some (routed, received) → k < received) ∧
      ∃ (b : UInt32) (routed received : UInt64),
        s.cinp.timestamp[b]? = some (routed, received) ∧ received ≠ 0xFFFFFFFFFFFFFFFF := by
  constructor
  · rintro ⟨hlt, hne⟩
    constructor
    · intro b routed received hb
      exact UInt64.lt_of_lt_of_le hlt (lastReceivedAck_le hb)
    · rcases lastReceivedAck_attained s with hmax | ⟨b, routed, hb⟩
      · exact absurd hmax hne
      · exact ⟨b, routed, _, hb, hne⟩
  · rintro ⟨hall, b, routed, received, hb, hne⟩
    have hlast : s.lastReceivedAck ≠ 0xFFFFFFFFFFFFFFFF := by
      intro hmax
      have hle := lastReceivedAck_le hb
      rw [hmax, UInt64.le_iff_toNat_le] at hle
      exact hne (UInt64.toNat_inj.mp (Nat.le_antisymm (Nat.le_of_lt_succ received.toNat_lt) hle))
    rcases lastReceivedAck_attained s with hmax | ⟨b', routed', hb'⟩
    · exact absurd hmax hlast
    · exact ⟨hall b' routed' _ hb', hlast⟩

/-- When no acknowledgement is outstanding, `remove_unacks` releases all the messages exactly if every
one of them has a smaller number than the last that was routed to any shard, and one of these is not
the greatest number. -/
theorem releasesAll_iff_of_quiescent {s : Shard} (hquiet : s.Quiescent) :
    s.ReleasesAll ↔ ∀ k ∈ s.cinp.unacks,
      (∀ (b : UInt32) (routed received : UInt64),
        s.cinp.timestamp[b]? = some (routed, received) → k < routed) ∧
      ∃ (b : UInt32) (routed received : UInt64),
        s.cinp.timestamp[b]? = some (routed, received) ∧ routed ≠ 0xFFFFFFFFFFFFFFFF := by
  rw [releasesAll_iff_empty, removeUnacks_empty_iff]
  refine forall₂_congr fun k _ => (lt_lastReceivedAck_iff s k).trans (and_congr ?_ ?_)
  · refine forall₄_congr fun b routed received hb => ?_
    rw [hquiet b routed received hb]
  · refine exists₃_congr fun b routed received => and_congr_right fun hb => ?_
    rw [hquiet b routed received hb]

/-- What `remove_unacks` returns is what it takes out. -/
theorem removeUnacks_moves (s : Shard) :
    ∃ acked : List (UInt64 × Message), s.removeUnacks.1 = acked.map Prod.snd ∧
      s.removeUnacks.2 = { s with cinp := { s.cinp with
        unacks := acked.foldl (fun unacks e => unacks.erase e.1) s.cinp.unacks } } ∧
      acked.Pairwise (fun e e' => e.1 < e'.1) ∧
      ∀ e ∈ acked, s.cinp.unacks[e.1]? = some e.2 := by
  unfold removeUnacks
  dsimp only
  split_ifs
  · exact ⟨[], rfl, rfl, .nil, by simp⟩
  · refine ⟨_, rfl, rfl, (toList_increasing _).filter _, fun e he => ?_⟩
    exact ExtTreeMap.mem_toList_iff_getElem?_eq_some.mp (List.mem_filter.mp he).1

/-- A shard that keeps the message number 1 to itself, with the last number that it has routed to itself
and that was acknowledged. -/
def keepingOne (last : UInt64) : Shard :=
  { spawn {} 0 with
    cinp := ⟨last + 1, (∅ : ExtTreeMap UInt64 Message).insert 1 (queuedMessage (soleGroup "bob")),
      (∅ : ExtTreeMap UInt32 (UInt64 × UInt64)).insert 0 (last, last)⟩ }

theorem keepingOne_quiescent (last : UInt64) : (keepingOne last).Quiescent := by
  intro b routed received hb
  simp only [keepingOne, OrdMap.getElem?_insert] at hb
  split_ifs at hb
  · cases hb
    rfl
  · simp at hb

theorem keepingOne_routedUpTo {last : UInt64} (h : 1 ≤ last) : (keepingOne last).RoutedUpTo := by
  intro k msg hk
  simp only [keepingOne, OrdMap.getElem?_insert] at hk
  split_ifs at hk with hone
  · cases hk
    subst hone
    exact ⟨0, last, last, rfl, by simp [keepingOne], h⟩
  · simp at hk

theorem releasesAll_iff_of_quiescent_later :
    (keepingOne 2).Quiescent ∧ (keepingOne 2).ReleasesAll := by
  refine ⟨keepingOne_quiescent 2, (releasesAll_iff_of_quiescent (keepingOne_quiescent 2)).mpr ?_⟩
  intro k hk
  obtain rfl : 1 = k := by
    rcases OrdMap.mem_insert.mp hk with hone | hnone
    · exact hone
    · simp at hnone
  refine ⟨fun b routed received hb => ?_, 0, 2, 2, by simp [keepingOne], by decide⟩
  simp only [keepingOne, OrdMap.getElem?_insert] at hb
  split_ifs at hb
  · cases hb
    decide
  · simp at hb

/-- The message is acknowledged, and it stays. -/
theorem acknowledged_message_stays :
    ¬ ∀ s : Shard, s.RoutedUpTo → s.Quiescent → s.ReleasesAll := by
  intro h
  have hempty := (releasesAll_iff_empty _).mp
    (h (keepingOne 1) (keepingOne_routedUpTo (by decide)) (keepingOne_quiescent 1))
  have hone : (1 : UInt64) ∈ (keepingOne 1).cinp.unacks := by simp [keepingOne]
  have hbelow := ((removeUnacks_empty_iff _).mp hempty 1 hone).1
  have hentry : (keepingOne 1).cinp.timestamp[(0 : UInt32)]? = some (1, 1) := by simp [keepingOne]
  have hlast : (keepingOne 1).lastReceivedAck ≤ 1 := lastReceivedAck_le hentry
  exact absurd (UInt64.lt_of_lt_of_le hbelow hlast) (by decide)

/-- What `route_to_client` writes in the books: its message may be kept under the next number, and then
that number is the last one that was routed to the target. -/
theorem routeToClient_books {s t : Shard} {sess : Session} {subscrs : List Subscription} {publ : Publish}
    (h : s.routeToClient sess subscrs publ = .ok t) :
    ∃ target, t.cinp.seqno = saturatingSucc s.cinp.seqno ∧
      (∀ (k : UInt64) (msg : Message), t.cinp.unacks[k]? = some msg →
        s.cinp.unacks[k]? = some msg ∨
          k = s.cinp.seqno ∧ msg = s.routedMessage sess subscrs publ ∧ msg.targetShard = some target ∧
            ∃ received, t.cinp.timestamp[target]? = some (s.cinp.seqno, received)) ∧
      ∀ (b : UInt32) (routed received : UInt64), s.cinp.timestamp[b]? = some (routed, received) →
        t.cinp.timestamp[b]? = some (routed, received) ∨
          ∃ received', t.cinp.timestamp[b]? = some (s.cinp.seqno, received') := by
  cases subscrs with
  | nil => cases h
  | cons subscr subscrs =>
    obtain ⟨serverQos, unacks, timestamp, -, rfl, hbooks⟩ := routeToClient_cases h
    refine ⟨subscr.shardId, rfl, fun k msg hk => ?_, fun b routed received hb => ?_⟩
    · rcases hbooks with ⟨-, rfl, -⟩ | ⟨-, rfl, rfl⟩
      · exact .inl hk
      · rw [OrdMap.getElem?_insert] at hk
        split_ifs at hk with hkey
        · cases hk
          exact .inr ⟨hkey.symm, rfl, rfl, _, by rw [OrdMap.getElem?_insert, if_pos rfl]⟩
        · exact .inl hk
    · rcases hbooks with ⟨-, -, rfl⟩ | ⟨-, -, rfl⟩
      · exact .inl hb
      · rw [OrdMap.getElem?_insert]
        split_ifs
        · exact .inr ⟨_, rfl⟩
        · exact .inl hb

/-- The message carries the number that was handed out for it. -/
theorem routedMessage_numbered {s t : Shard} {sess : Session} {subscrs : List Subscription}
    {publ : Publish} (h : s.routeToClient sess subscrs publ = .ok t) :
    (s.routedMessage sess subscrs publ).Numbered s.shardId s.cinp.seqno := by
  cases subscrs with
  | nil => cases h
  | cons subscr subscrs => exact ⟨rfl, rfl⟩

end Shard

/-- The calls that keep the books. -/
inductive BookOp where
  | routeToClient (sess : Session) (subscrs : List Subscription) (publ : Publish)
  | removeUnacks
  | removeSession (clientId : ClientID)
  | bookLocalAck (shardId : UInt32) (lastReceived : UInt64)

def BookOp.isRoute : BookOp → Bool
  | .routeToClient .. => true
  | .removeUnacks | .removeSession _ | .bookLocalAck .. => false

/-- A shard, with a record of the messages it has routed, each with the number that was handed out for
it, and of the messages that `remove_unacks` has returned. -/
structure Ledger where
  shard : Shard
  routed : List (UInt64 × Message)
  returned : List Message

namespace Ledger

/-- A call that aborts ends the run. -/
def step (self : Ledger) : BookOp → Option Ledger
  | .routeToClient sess subscrs publ => do
    let shard ← (self.shard.routeToClient sess subscrs publ).toOption
    let msg := self.shard.routedMessage sess subscrs publ
    some { self with shard := shard, routed := self.routed ++ [(self.shard.incrCinpSeqno.1, msg)] }
  | .removeUnacks =>
    let (msgs, shard) := self.shard.removeUnacks
    some { self with shard := shard, returned := self.returned ++ msgs }
  | .removeSession clientId => do
    let shard ← (self.shard.removeSession clientId).toOption
    some { self with shard := shard }
  | .bookLocalAck shardId lastReceived => do
    let shard ← (self.shard.bookLocalAck shardId lastReceived).toOption
    some { self with shard := shard }

/-- Numbers are handed out in increasing order. A message that is kept has a number below the next one,
under which it, and it alone, was routed, and its target is a shard to which a number not below its own
was routed last. No message is returned twice. -/
structure Sound (s : Ledger) : Prop where
  increasing : (s.routed.map Prod.fst).Pairwise (· < ·)
  kept : ∀ (k : UInt64) (msg : Message), s.shard.cinp.unacks[k]? = some msg →
    k < s.shard.cinp.seqno ∧ s.routed.filter (fun e => e.1 = k) = [(k, msg)]
  target : s.shard.RoutedUpTo
  once : s.returned.Nodup

/-- The invariant behind it: routed messages carry their numbers, all below the next one, and what was
returned is not kept. -/
structure Inv (s : Ledger) : Prop where
  increasing : (s.routed.map Prod.fst).Pairwise (· < ·)
  numbered : ∀ e ∈ s.routed, e.1 < s.shard.cinp.seqno ∧ ∃ a, e.2.Numbered a e.1
  kept : ∀ (k : UInt64) (msg : Message), s.shard.cinp.unacks[k]? = some msg →
    (k, msg) ∈ s.routed
  target : s.shard.RoutedUpTo
  gone : ∀ msg ∈ s.returned, ∃ k, (k, msg) ∈ s.routed ∧ s.shard.cinp.unacks[k]? = none
  once : s.returned.Nodup

variable {s s' : Ledger}

theorem Inv.lt_seqno (h : s.Inv) {k : UInt64} {msg : Message}
    (hk : s.shard.cinp.unacks[k]? = some msg) : k < s.shard.cinp.seqno :=
  (h.numbered _ (h.kept k msg hk)).1

/-- Two messages that were routed under one number are one. -/
theorem Inv.sound (h : s.Inv) : s.Sound where
  increasing := h.increasing
  target := h.target
  once := h.once
  kept k msg hk := by
    refine ⟨h.lt_seqno hk, ?_⟩
    obtain ⟨before, after, hrouted⟩ := List.append_of_mem (h.kept k msg hk)
    have hsorted := h.increasing
    rw [hrouted, List.map_append, List.map_cons, List.pairwise_append, List.pairwise_cons] at hsorted
    obtain ⟨-, ⟨hafter, -⟩, hbefore⟩ := hsorted
    have hnone (l : List (UInt64 × Message)) (hl : ∀ e ∈ l, e.1 ≠ k) :
        l.filter (fun e => e.1 = k) = [] :=
      List.filter_eq_nil_iff.mpr fun e he => by simpa using hl e he
    rw [hrouted, List.filter_append, List.filter_cons_of_pos (by simp), hnone before, hnone after,
      List.nil_append]
    · intro e he
      exact (UInt64.ne_of_lt (hafter e.1 (List.mem_map_of_mem he))).symm
    · intro e he
      exact UInt64.ne_of_lt (hbefore e.1 (List.mem_map_of_mem he) k List.mem_cons_self)

/-- Messages are taken out of the books, and perhaps returned. -/
theorem Inv.shrink (h : s.Inv) {unacks : ExtTreeMap UInt64 Message} {returned : List Message}
    (hsub : ∀ (k : UInt64) (msg : Message), unacks[k]? = some msg →
      s.shard.cinp.unacks[k]? = some msg)
    (hgone : ∀ msg ∈ returned, ∃ k, (k, msg) ∈ s.routed ∧ unacks[k]? = none)
    (honce : returned.Nodup) :
    Inv ⟨{ s.shard with cinp := { s.shard.cinp with unacks := unacks } }, s.routed, returned⟩ where
  increasing := h.increasing
  numbered := h.numbered
  kept k msg hk := h.kept k msg (hsub k msg hk)
  target k msg hk := h.target k msg (hsub k msg hk)
  gone := hgone
  once := honce

theorem Inv.removeUnacks (h : s.Inv) :
    Inv ⟨s.shard.removeUnacks.2, s.routed, s.returned ++ s.shard.removeUnacks.1⟩ := by
  obtain ⟨acked, hreturns, hshard, hsorted, hacked⟩ := s.shard.removeUnacks_moves
  rw [hreturns, hshard]
  have hrouted : ∀ e ∈ acked, e ∈ s.routed := fun e he => h.kept e.1 e.2 (hacked e he)
  apply h.shrink
  · intro k msg hk
    rw [OrdMap.getElem?_foldl_erase] at hk
    split_ifs at hk
    exact hk
  · intro msg hmsg
    simp only [OrdMap.getElem?_foldl_erase]
    rcases List.mem_append.mp hmsg with hold | hnew
    · obtain ⟨k, hk, hnone⟩ := h.gone msg hold
      exact ⟨k, hk, by simp [hnone]⟩
    · obtain ⟨e, he, rfl⟩ := List.mem_map.mp hnew
      exact ⟨e.1, hrouted e he, if_pos (List.mem_map_of_mem he)⟩
  · -- a message carries its number, so that distinct entries hold distinct messages
    have hnumber {e e' : UInt64 × Message} (he : e ∈ s.routed) (he' : e' ∈ s.routed)
        (heq : e.2 = e'.2) : e.1 = e'.1 := by
      obtain ⟨-, a, ha⟩ := h.numbered e he
      obtain ⟨-, a', ha'⟩ := h.numbered e' he'
      exact (heq ▸ ha).unique ha'
    rw [List.nodup_append]
    refine ⟨h.once, ?_, ?_⟩
    · refine List.pairwise_map.mpr (hsorted.imp_of_mem fun he he' hlt heq => ?_)
      exact UInt64.ne_of_lt hlt (hnumber (hrouted _ he) (hrouted _ he') heq)
    · rintro msg hold msg' hnew rfl
      obtain ⟨k, hk, hnone⟩ := h.gone msg hold
      obtain ⟨e, he, heq⟩ := List.mem_map.mp hnew
      have hsame : e.1 = k := hnumber (hrouted e he) hk heq
      rw [← hsame, hacked e he] at hnone
      cases hnone

/-- The number of a new message is above all that were handed out. -/
theorem Inv.routeToClient (h : s.Inv) {sess : Session} {subscrs : List Subscription} {publ : Publish}
    {shard : Shard} (hroute : s.shard.routeToClient sess subscrs publ = .ok shard)
    (hleft : s.shard.cinp.seqno ≠ 0xFFFFFFFFFFFFFFFF) :
    Inv { s with
      shard := shard
      routed := s.routed ++ [(s.shard.cinp.seqno, s.shard.routedMessage sess subscrs publ)] } := by
  have hnext : s.shard.cinp.seqno < saturatingSucc s.shard.cinp.seqno := Network.lt_saturatingSucc hleft
  have hbelow : ∀ e ∈ s.routed, e.1 < s.shard.cinp.seqno := fun e he => (h.numbered e he).1
  obtain ⟨target, hseqno, hkept, htime⟩ := Shard.routeToClient_books hroute
  constructor
  · rw [List.map_append, List.pairwise_append]
    refine ⟨h.increasing, List.pairwise_singleton _ _, fun k hk k' hk' => ?_⟩
    obtain ⟨e, he, rfl⟩ := List.mem_map.mp hk
    obtain rfl := List.mem_singleton.mp hk'
    exact hbelow e he
  · intro e he
    rw [hseqno]
    rcases List.mem_append.mp he with he | he
    · exact ⟨UInt64.lt_trans (hbelow e he) hnext, (h.numbered e he).2⟩
    · obtain rfl := List.mem_singleton.mp he
      exact ⟨hnext, s.shard.shardId, Shard.routedMessage_numbered hroute⟩
  · intro k msg hk
    rcases hkept k msg hk with hold | ⟨rfl, rfl, -⟩
    · exact List.mem_append_left _ (h.kept k msg hold)
    · exact List.mem_append_right _ List.mem_cons_self
  · intro k msg hk
    rcases hkept k msg hk with hold | ⟨rfl, rfl, htarget, received, hentry⟩
    · obtain ⟨b, routed, received, hb, hentry, hle⟩ := h.target k msg hold
      rcases htime b routed received hentry with hsame | ⟨received', hnew⟩
      · exact ⟨b, routed, received, hb, hsame, hle⟩
      · exact ⟨b, _, received', hb, hnew, UInt64.le_of_lt (h.lt_seqno hold)⟩
    · exact ⟨target, _, received, htarget, hentry, UInt64.le_refl _⟩
  · intro msg hmsg
    obtain ⟨k, hk, hnone⟩ := h.gone msg hmsg
    refine ⟨k, List.mem_append_left _ hk, Option.eq_none_iff_forall_ne_some.mpr fun msg' hsome => ?_⟩
    rcases hkept k msg' hsome with hold | ⟨rfl, -⟩
    · rw [hnone] at hold
      cases hold
    · exact UInt64.lt_irrefl _ (hbelow _ hk)
  · exact h.once

theorem Inv.bookLocalAck (h : s.Inv) {shardId : UInt32} {lastReceived : UInt64} {shard : Shard}
    (hbook : s.shard.bookLocalAck shardId lastReceived = .ok shard) :
    Inv { s with shard := shard } := by
  obtain ⟨routed, received, hentry, rfl⟩ := Shard.bookLocalAck_cases hbook
  refine ⟨h.increasing, h.numbered, h.kept, fun k msg hk => ?_, h.gone, h.once⟩
  obtain ⟨b, routed', received', hb, htime, hle⟩ := h.target k msg hk
  by_cases hsame : shardId = b
  · subst hsame
    rw [hentry] at htime
    cases htime
    exact ⟨shardId, routed, lastReceived, hb, by rw [OrdMap.getElem?_insert, if_pos rfl], hle⟩
  · exact ⟨b, routed', received', hb, by rw [OrdMap.getElem?_insert, if_neg hsame, htime], hle⟩

theorem Inv.removeSession (h : s.Inv) {clientId : ClientID} {shard : Shard}
    (hremove : s.shard.removeSession clientId = .ok shard) : Inv { s with shard := shard } := by
  obtain ⟨unacks, rfl, hshrinks⟩ := Shard.removeSession_cases hremove
  apply h.shrink hshrinks.sub
  · intro msg hmsg
    obtain ⟨k, hk, hnone⟩ := h.gone msg hmsg
    refine ⟨k, hk, Option.eq_none_iff_forall_ne_some.mpr fun msg' hsome => ?_⟩
    rw [hshrinks.sub k msg' hsome] at hnone
    cases hnone
  · exact h.once

/-- A step keeps the invariant if a number is left, and only a message that is routed takes one. -/
theorem step_inv {op : BookOp} (h : s.Inv) (hs : s.step op = some s')
    (hleft : op.isRoute → s.shard.cinp.seqno ≠ 0xFFFFFFFFFFFFFFFF) :
    s'.Inv ∧ s'.shard.cinp.seqno =
      if op.isRoute then saturatingSucc s.shard.cinp.seqno else s.shard.cinp.seqno := by
  cases op with
  | routeToClient sess subscrs publ =>
    obtain ⟨shard, hshard, hs⟩ := Option.bind_eq_some_iff.mp hs
    cases hs
    have hroute := toOption_eq_some.mp hshard
    refine ⟨h.routeToClient hroute (hleft rfl), ?_⟩
    cases subscrs with
    | nil => cases hroute
    | cons subscr subscrs =>
      obtain ⟨_, _, _, -, rfl, -⟩ := Shard.routeToClient_cases hroute
      rfl
  | removeUnacks =>
    obtain rfl : ⟨s.shard.removeUnacks.2, s.routed, s.returned ++ s.shard.removeUnacks.1⟩ = s' :=
      Option.some.inj hs
    refine ⟨h.removeUnacks, ?_⟩
    obtain ⟨_, -, hshard, -⟩ := s.shard.removeUnacks_moves
    rw [hshard]
    rfl
  | removeSession clientId =>
    obtain ⟨shard, hshard, hs⟩ := Option.bind_eq_some_iff.mp hs
    cases hs
    have hremove := toOption_eq_some.mp hshard
    refine ⟨h.removeSession hremove, ?_⟩
    obtain ⟨_, rfl, -⟩ := Shard.removeSession_cases hremove
    rfl
  | bookLocalAck shardId lastReceived =>
    obtain ⟨shard, hshard, hs⟩ := Option.bind_eq_some_iff.mp hs
    cases hs
    have hbook := toOption_eq_some.mp hshard
    refine ⟨h.bookLocalAck hbook, ?_⟩
    obtain ⟨_, _, -, rfl⟩ := Shard.bookLocalAck_cases hbook
    rfl

/-- The books of a shard before the first call. -/
def opened (shard : Shard) : Ledger := ⟨shard, [], []⟩

theorem opened_inv {shard : Shard} (h : shard.cinp = ⟨1, ∅, ∅⟩) : (opened shard).Inv where
  increasing := .nil
  numbered := by simp [opened]
  kept k msg hk := by simp [opened, h] at hk
  target k msg hk := by simp [opened, h] at hk
  gone := by simp [opened]
  once := .nil

/-- The calls so far, and the next number. -/
theorem run_inv {shard : Shard} {ops : List BookOp} (hstart : shard.cinp = ⟨1, ∅, ∅⟩)
    (hrun : Transition.run step (opened shard) ops = some s)
    (hcount : ops.countP BookOp.isRoute < 2 ^ 64 - 1) :
    s.Inv ∧ s.shard.cinp.seqno.toNat = ops.countP BookOp.isRoute + 1 := by
  refine Transition.run_history (G := fun _ _ => True) (P := fun ops s =>
    ops.countP BookOp.isRoute < 2 ^ 64 - 1 →
      s.Inv ∧ s.shard.cinp.seqno.toNat = ops.countP BookOp.isRoute + 1) ?_ []
    (fun _ => ⟨opened_inv hstart, by simp [opened, hstart]⟩)
    (Transition.along_of_forall fun _ _ _ => trivial) hrun hcount
  rintro hist s op s' hs - hstep hcount
  rw [List.countP_append, List.countP_singleton] at hcount ⊢
  obtain ⟨hinv, hseqno⟩ := hs (by omega)
  have hleft : op.isRoute → s.shard.cinp.seqno ≠ 0xFFFFFFFFFFFFFFFF := by
    intro hroute heq
    rw [if_pos hroute] at hcount
    rw [heq] at hseqno
    have hmax : (0xFFFFFFFFFFFFFFFF : UInt64).toNat = 2 ^ 64 - 1 := rfl
    omega
  obtain ⟨hinv', hnext⟩ := step_inv hinv hstep hleft
  refine ⟨hinv', ?_⟩
  rw [hnext]
  split_ifs with hroute
  · rw [saturatingSucc, if_neg (hleft hroute), UInt64.toNat_add, hseqno]
    rw [if_pos hroute] at hcount
    exact Nat.mod_eq_of_lt (by simp; omega)
  · exact hseqno

/-- From fresh books, whatever calls are made and return, as long as there are fewer messages than
numbers. -/
theorem sound_of_run {shard : Shard} {ops : List BookOp} (hstart : shard.cinp = ⟨1, ∅, ∅⟩)
    (hrun : Transition.run step (opened shard) ops = some s)
    (hcount : ops.countP BookOp.isRoute < 2 ^ 64 - 1) : s.Sound :=
  (run_inv hstart hrun hcount).1.sound

/-- `alice` publishes for `bob`. -/
def routeNews (qos : QoS) : BookOp :=
  .routeToClient (Session.idle "alice") (Shard.soleGroup "bob").subscrs
    { Shard.plainPublish with qos := qos }

/-- Of two messages one is kept, until a later number is acknowledged. -/
def keptAndReleased : List BookOp :=
  [routeNews .atLeastOnce, routeNews .atMostOnce, .removeUnacks, .bookLocalAck 0 2, .removeUnacks,
    .removeSession ⟨"bob"⟩]

theorem sound_of_run_keptAndReleased :
    ∃ s, Transition.run step (opened (Shard.spawn {} 0)) keptAndReleased = some s ∧
      s.returned = [Shard.routedMessage (Shard.spawn {} 0) (Session.idle "alice")
        (Shard.soleGroup "bob").subscrs { Shard.plainPublish with qos := .atLeastOnce }] ∧
      s.Sound := by
  have hreturned : (Transition.run step (opened (Shard.spawn {} 0)) keptAndReleased).any fun s =>
      s.returned = [Shard.routedMessage (Shard.spawn {} 0) (Session.idle "alice")
        (Shard.soleGroup "bob").subscrs { Shard.plainPublish with qos := .atLeastOnce }] := by
    decide
  obtain ⟨s, hrun, hs⟩ := (Option.any_eq_true _ _).mp hreturned
  exact ⟨s, hrun, of_decide_eq_true hs, sound_of_run rfl hrun (by decide)⟩

end Ledger
end Mqtr
