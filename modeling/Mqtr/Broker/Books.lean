import Mqtr.Broker.Publish
import Mqtr.Core.Transition

/-! The identifiers of the PUBLISH packets that a session has taken. They are booked, and looked up, in
sorted lists; nothing gives an identifier back, as `unbook_qos` has no caller. -/
namespace Mqtr
open Outcome Transition

namespace Publish

/-- A packet of QoS 1 or 2 under an identifier that one of the same QoS has had before, unless its
flag makes it a new one. -/
def Repeats (ignoreDup : Bool) (hist : List Publish) (self : Publish) : Prop :=
  self.qos ≠ .atMostOnce ∧ (self.duplicate && ignoreDup) = false ∧
    ∃ p ∈ hist, p.qos = self.qos ∧ p.packetId = self.packetId

instance (ignoreDup : Bool) (hist : List Publish) (self : Publish) :
    Decidable (self.Repeats ignoreDup hist) :=
  inferInstanceAs (Decidable (self.qos ≠ .atMostOnce ∧ (self.duplicate && ignoreDup) = false ∧
    ∃ p ∈ hist, p.qos = self.qos ∧ p.packetId = self.packetId))

/-- The packets that do not repeat one before them. -/
def withoutRepeats (ignoreDup : Bool) (hist : List Publish) : List Publish :=
  hist.foldl (fun kept p => if p.Repeats ignoreDup kept then kept else kept ++ [p]) []

variable {ignoreDup : Bool} {hist : List Publish}

theorem withoutRepeats_concat (p : Publish) : withoutRepeats ignoreDup (hist ++ [p]) =
    if p.Repeats ignoreDup (withoutRepeats ignoreDup hist) then withoutRepeats ignoreDup hist
    else withoutRepeats ignoreDup hist ++ [p] := by
  rw [withoutRepeats, List.foldl_append]
  rfl

/-- A packet of the history is kept, or one of the same QoS and identifier is. -/
theorem exists_withoutRepeats_iff {qos : QoS} {packetId : Option UInt16} :
    (∃ p ∈ withoutRepeats ignoreDup hist, p.qos = qos ∧ p.packetId = packetId) ↔
      ∃ p ∈ hist, p.qos = qos ∧ p.packetId = packetId := by
  induction hist using List.reverseRecOn with
  | nil => rfl
  | append_singleton hist p ih =>
    rw [withoutRepeats_concat]
    by_cases hrep : p.Repeats ignoreDup (withoutRepeats ignoreDup hist)
    · rw [if_pos hrep, ih]
      obtain ⟨-, -, hbefore⟩ := hrep
      constructor
      · rintro ⟨q, hq, heq⟩
        exact ⟨q, by simp [hq], heq⟩
      · rintro ⟨q, hq, hqos, hid⟩
        rcases List.mem_append.mp hq with hq | hq
        · exact ⟨q, hq, hqos, hid⟩
        · obtain rfl := List.mem_singleton.mp hq
          rw [hqos, hid] at hbefore
          exact ih.mp hbefore
    · rw [if_neg hrep]
      simp only [List.mem_append, or_and_right, exists_or, ih]

theorem repeats_withoutRepeats_iff (p : Publish) :
    p.Repeats ignoreDup (withoutRepeats ignoreDup hist) ↔ p.Repeats ignoreDup hist := by
  unfold Repeats
  rw [exists_withoutRepeats_iff]

/-- Among the packets that are kept, the unflagged ones of one QoS have different identifiers. -/
theorem withoutRepeats_pairwise : (withoutRepeats ignoreDup hist).Pairwise fun p p' =>
    p'.qos ≠ .atMostOnce → (p'.duplicate && ignoreDup) = false → p.qos = p'.qos →
      p.packetId ≠ p'.packetId := by
  induction hist using List.reverseRecOn with
  | nil => exact .nil
  | append_singleton hist p ih =>
    rw [withoutRepeats_concat]
    by_cases hrep : p.Repeats ignoreDup (withoutRepeats ignoreDup hist)
    · rwa [if_pos hrep]
    · rw [if_neg hrep]
      refine List.pairwise_append.mpr ⟨ih, List.pairwise_singleton _ p, ?_⟩
      intro q hq p' hp' hqos hdup hsame hid
      obtain rfl := List.mem_singleton.mp hp'
      exact hrep ⟨hqos, hdup, q, hq, hsame, hid⟩

/-- There are not more unflagged packets of one QoS than identifiers. -/
theorem countP_withoutRepeats_le {qos : QoS} (hqos : qos ≠ .atMostOnce)
    (hnamed : ∀ p ∈ withoutRepeats ignoreDup hist, p.qos ≠ .atMostOnce → p.packetId.isSome) :
    (withoutRepeats ignoreDup hist).countP
      (fun p => p.qos = qos ∧ (p.duplicate && ignoreDup) = false) ≤ 65536 := by
  rw [List.countP_eq_length_filter]
  set unflagged := (withoutRepeats ignoreDup hist).filter
    (fun p => p.qos = qos ∧ (p.duplicate && ignoreDup) = false) with hdef
  have hmem (p : Publish) (hp : p ∈ unflagged) :
      p.packetId.isSome ∧ p.qos = qos ∧ (p.duplicate && ignoreDup) = false := by
    obtain ⟨hin, hsel⟩ := List.mem_filter.mp hp
    obtain ⟨hq, hdup⟩ := of_decide_eq_true hsel
    exact ⟨hnamed p hin (hq ▸ hqos), hq, hdup⟩
  have hids : (unflagged.map fun p => p.packetId.getD 0).Nodup := by
    refine List.pairwise_map.mpr ?_
    refine List.Pairwise.imp_of_mem ?_ (withoutRepeats_pairwise.filter _)
    intro p p' hp hp' hne heq
    obtain ⟨hsome, hq, -⟩ := hmem p hp
    obtain ⟨hsome', hq', hdup'⟩ := hmem p' hp'
    obtain ⟨id, hid⟩ := Option.isSome_iff_exists.mp hsome
    obtain ⟨id', hid'⟩ := Option.isSome_iff_exists.mp hsome'
    refine hne (hq' ▸ hqos) hdup' (hq.trans hq'.symm) ?_
    simpa [hid, hid'] using heq
  have identifiers : UInt16 ≃ Fin 65536 :=
    ⟨UInt16.toFin, UInt16.ofFin, UInt16.ofFin_toFin, UInt16.toFin_ofFin⟩
  have hcard : Fintype.card UInt16 = 65536 := by
    simpa using Fintype.card_congr identifiers
  have hle := hids.length_le_card
  rwa [List.length_map, hcard] at hle

end Publish

namespace Session
variable {self booked : Session} {publ : Publish} {taken : List Publish}

/-- The lists are strictly ascending, and hold the identifiers of the packets that were taken. -/
structure Books (s : Session) (taken : List Publish) : Prop where
  sorted : ∀ qos, (s.bookedIds qos).Pairwise (compare · · = .lt)
  named : ∀ p ∈ taken, p.qos ≠ .atMostOnce → p.packetId.isSome
  booked : ∀ qos, qos ≠ .atMostOnce → ∀ id, id ∈ s.bookedIds qos ↔
    ∃ p ∈ taken, p.qos = qos ∧ p.packetId = some id

theorem isBooked_sorted {ids : List UInt16} (h : ids.Pairwise (compare · · = .lt)) (id : UInt16) :
    isBooked ids (some id) = .ok (decide (id ∈ ids)) := by
  obtain ⟨a, ha, hok, -⟩ := Bisect.search_sorted h id
  have hdec : a.isOk = decide (id ∈ ids) := by
    rw [Bool.eq_iff_iff, hok, decide_eq_true_iff]
  simp [isBooked, searchId, ha, ofOption, hdec]

theorem bookId_sorted {ids ids' : List UInt16} {id : UInt16} {fresh : Bool}
    (h : ids.Pairwise (compare · · = .lt)) (hbook : bookId ids (some id) = .ok (fresh, ids')) :
    ids'.Pairwise (compare · · = .lt) ∧ ∀ x, x ∈ ids' ↔ x = id ∨ x ∈ ids := by
  obtain ⟨a, ha, hok, hinsert⟩ := Bisect.search_sorted h id
  simp only [bookId, searchId, ha, ofOption, ok_bind] at hbook
  cases a with
  | ok off =>
    cases hbook
    have hmem : id ∈ ids := hok.mp rfl
    refine ⟨h, fun x => ⟨.inr, ?_⟩⟩
    rintro (rfl | hx)
    · exact hmem
    · exact hx
  | error off =>
    obtain ⟨ids₁, hat, hsorted, hmem⟩ := hinsert off rfl
    simp only [hat, ok_bind] at hbook
    cases hbook
    exact ⟨hsorted, hmem⟩

theorem isDuplicate_eq (hqos : publ.qos ≠ .atMostOnce) : self.isDuplicate publ =
    if publ.duplicate && self.config.mqttIgnoreDuplicate then .ok false
    else isBooked (self.bookedIds publ.qos) publ.packetId := by
  cases hq : publ.qos with
  | atMostOnce => exact absurd hq hqos
  | atLeastOnce => simp only [isDuplicate, hq, bookedIds]
  | exactlyOnce => simp only [isDuplicate, hq, bookedIds]

/-- The duplicates are the packets that repeat one that was taken. -/
theorem Books.isDuplicate_iff (h : self.Books taken) (publ : Publish) :
    self.isDuplicate publ = .ok true ↔ publ.Repeats self.config.mqttIgnoreDuplicate taken := by
  by_cases hqos : publ.qos = .atMostOnce
  · simp [isDuplicate, Publish.Repeats, hqos]
  rw [isDuplicate_eq hqos]
  unfold Publish.Repeats
  cases hdup : publ.duplicate && self.config.mqttIgnoreDuplicate with
  | true => simp
  | false =>
    simp only [Bool.false_eq_true, ↓reduceIte, ne_eq, hqos, not_false_eq_true, true_and]
    cases hid : publ.packetId with
    | none =>
      constructor
      · intro hpanic
        cases hpanic
      · rintro ⟨p, hp, hsame, hnone⟩
        have hsome := h.named p hp (hsame ▸ hqos)
        rw [hnone] at hsome
        cases hsome
    | some id =>
      rw [isBooked_sorted (h.sorted _), ← h.booked _ hqos]
      simp

/-- Booking changes the list for the QoS of the packet only. -/
theorem bookQos_bookedIds {fresh : Bool} (h : self.bookQos publ = .ok (fresh, booked)) :
    publ.qos = .atMostOnce ∧ booked = self ∨
      publ.qos ≠ .atMostOnce ∧ ∃ id ids, publ.packetId = some id ∧
        bookId (self.bookedIds publ.qos) (some id) = .ok (fresh, ids) ∧
        ∀ qos, booked.bookedIds qos = if qos = publ.qos then ids else self.bookedIds qos := by
  obtain ⟨serverQos, -, h⟩ := bind_eq_ok.mp h
  by_cases hrank : serverQos.rank < publ.qos.rank
  · rw [if_pos hrank] at h
    exact absurd h (errCode_ne_ok _ _ _ _)
  rw [if_neg hrank] at h
  cases hq : publ.qos with
  | atMostOnce =>
    simp only [hq] at h
    cases h
    exact .inl ⟨rfl, rfl⟩
  | atLeastOnce =>
    simp only [hq] at h
    obtain ⟨⟨fresh, ids⟩, hbook, h⟩ := bind_eq_ok.mp h
    cases h
    obtain ⟨id, hid, -⟩ := bind_eq_ok.mp hbook
    refine .inr ⟨by simp, id, ids, ofOption_eq_ok.mp hid, ?_, ?_⟩
    · rwa [ofOption_eq_ok.mp hid] at hbook
    · rintro (_ | _ | _) <;> rfl
  | exactlyOnce =>
    simp only [hq] at h
    obtain ⟨⟨fresh, ids⟩, hbook, h⟩ := bind_eq_ok.mp h
    cases h
    obtain ⟨id, hid, -⟩ := bind_eq_ok.mp hbook
    refine .inr ⟨by simp, id, ids, ofOption_eq_ok.mp hid, ?_, ?_⟩
    · rwa [ofOption_eq_ok.mp hid] at hbook
    · rintro (_ | _ | _) <;> rfl

theorem Books.bookQos {fresh : Bool} (h : self.Books taken)
    (hbook : self.bookQos publ = .ok (fresh, booked)) : booked.Books (taken ++ [publ]) := by
  rcases bookQos_bookedIds hbook with ⟨hzero, rfl⟩ | ⟨hqos, id, ids, hid, hids, hlists⟩
  · refine ⟨h.sorted, ?_, ?_⟩
    · intro p hp hp0
      rcases List.mem_append.mp hp with hp | hp
      · exact h.named p hp hp0
      · obtain rfl := List.mem_singleton.mp hp
        exact absurd hzero hp0
    · intro qos hqos id
      have hother : publ.qos ≠ qos := fun he => hqos (he ▸ hzero)
      simp [h.booked qos hqos, hother, or_and_right, exists_or]
  · obtain ⟨hsorted, hmem⟩ := bookId_sorted (h.sorted publ.qos) hids
    refine ⟨?_, ?_, ?_⟩
    · intro qos
      rw [hlists]
      split_ifs
      · exact hsorted
      · exact h.sorted qos
    · intro p hp hp0
      rcases List.mem_append.mp hp with hp | hp
      · exact h.named p hp hp0
      · obtain rfl := List.mem_singleton.mp hp
        rw [hid]
        rfl
    · intro qos hq x
      rw [hlists]
      split_ifs with hsame
      · rw [hmem, h.booked _ hqos, hsame]
        simp [or_and_right, exists_or, hid, eq_comm, or_comm]
      · have hother : publ.qos ≠ qos := Ne.symm hsame
        simp [h.booked qos hq, hother, or_and_right, exists_or]

/-- The books are in the two lists. -/
theorem Books.congr {self' : Session} (h : self.Books taken) (h1 : self'.qos1 = self.qos1)
    (h2 : self'.qos2 = self.qos2) : self'.Books taken := by
  have hids (qos : QoS) : self'.bookedIds qos = self.bookedIds qos := by
    cases qos with
    | atMostOnce => rfl
    | atLeastOnce => exact h1
    | exactlyOnce => exact h2
  refine ⟨?_, h.named, ?_⟩
  · intro qos
    rw [hids]
    exact h.sorted qos
  · intro qos hqos id
    rw [hids]
    exact h.booked qos hqos id

theorem books_of_fresh (h1 : self.qos1 = []) (h2 : self.qos2 = []) : self.Books [] := by
  have hids (qos : QoS) : self.bookedIds qos = [] := by
    cases qos with
    | atMostOnce => rfl
    | atLeastOnce => exact h1
    | exactlyOnce => exact h2
  refine ⟨?_, by simp, ?_⟩
  · intro qos
    rw [hids]
    exact .nil
  · intro qos hqos id
    simp [hids]

end Session

namespace Publishing
variable {st st₀ st' : Publishing} {publ : Publish} {hist : List Publish}

/-- The state after a PUBLISH that is not refused. -/
def step (st : Publishing) (publ : Publish) : Option Publishing :=
  match doPublish publ st with
  | (.ok _, st') => some st'
  | (.err _, _) | (.panic, _) => none

theorem step_eq_some : st.step publ = some st' ↔ ∃ msgs, doPublish publ st = (.ok msgs, st') := by
  unfold step
  rcases doPublish publ st with ⟨msgs | e | _, t⟩ <;> simp

theorem step_of_duplicate (h : st.session.isDuplicate publ = .ok true) :
    st.step publ = some st := by
  refine step_eq_some.mpr ⟨[], ?_⟩
  refine Stateful.bind_eq_ok.mpr ⟨true, st, ?_, rfl⟩
  exact Stateful.inspect_eq_ok.mpr ⟨h, rfl⟩

/-- A packet that is taken is booked, and the configuration of a session does not change. -/
theorem step_books {taken : List Publish} (h : st.session.Books taken)
    (hnew : ¬ publ.Repeats st.session.config.mqttIgnoreDuplicate taken)
    (hs : st.step publ = some st') :
    st'.session.Books (taken ++ [publ]) ∧ st'.session.config = st.session.config := by
  obtain ⟨msgs, hpub⟩ := step_eq_some.mp hs
  have hdup : st.session.isDuplicate publ = .ok false := by
    obtain ⟨dup, t, hdup, -⟩ := Stateful.bind_eq_ok.mp hpub
    obtain ⟨hdup, -⟩ := Stateful.inspect_eq_ok.mp hdup
    cases dup with
    | true => exact absurd ((h.isDuplicate_iff publ).mp hdup) hnew
    | false => exact hdup
  obtain ⟨st₁, fresh, booked, topicName, session, hretain, hqos, htopic, hroute⟩ :=
    doPublish_eq_ok hdup hpub
  obtain ⟨hsession, -, -⟩ := bookRetain_eq_ok hretain
  rw [hsession] at hqos
  have hbooks := h.bookQos hqos
  obtain ⟨qos1, qos2, rfl⟩ := Session.bookQos_eq_ok hqos
  obtain ⟨hkept, -⟩ := routeToSubscribers_keeps hroute
  rw [hkept]
  rcases Session.publishTopicName_eq_ok.mp htopic with
    ⟨-, -, -, rfl⟩ | ⟨_, _, -, -, -, ⟨-, -, rfl⟩ | ⟨-, -, rfl⟩⟩
  · exact ⟨hbooks, rfl⟩
  · exact ⟨hbooks.congr rfl rfl, rfl⟩
  · exact ⟨hbooks, rfl⟩

theorem run_concat (st₀ : Publishing) (hist : List Publish) (publ : Publish) :
    run step st₀ (hist ++ [publ]) = (run step st₀ hist).bind (step · publ) :=
  Option.ext fun st => by simp [run_append, run, Option.bind_eq_some_iff]

/-- Leaving the repetitions out changes nothing, and the books are those of the packets left. -/
theorem run_withoutRepeats (h : st₀.session.Books []) (hist : List Publish) :
    run step st₀ hist =
        run step st₀ (Publish.withoutRepeats st₀.session.config.mqttIgnoreDuplicate hist) ∧
      ∀ st, run step st₀ hist = some st →
        st.session.Books (Publish.withoutRepeats st₀.session.config.mqttIgnoreDuplicate hist) ∧
          st.session.config = st₀.session.config := by
  induction hist using List.reverseRecOn with
  | nil =>
    refine ⟨rfl, ?_⟩
    rintro st ⟨⟩
    exact ⟨h, rfl⟩
  | append_singleton hist publ ih =>
    obtain ⟨hsame, hbooks⟩ := ih
    rw [Publish.withoutRepeats_concat, run_concat]
    cases hrun : run step st₀ hist with
    | none =>
      refine ⟨?_, by simp⟩
      split_ifs
      · rw [← hsame, hrun]
        rfl
      · rw [run_concat, ← hsame, hrun]
    | some st =>
      obtain ⟨hbook, hconfig⟩ := hbooks st hrun
      split_ifs with hrep
      · have hdup : st.session.isDuplicate publ = .ok true :=
          (hbook.isDuplicate_iff publ).mpr (hconfig ▸ hrep)
        rw [Option.bind_some, step_of_duplicate hdup, ← hsame, hrun]
        refine ⟨rfl, ?_⟩
        rintro _ ⟨⟩
        exact ⟨hbook, hconfig⟩
      · refine ⟨by rw [run_concat, ← hsame, hrun], ?_⟩
        intro st' hs
        obtain ⟨hbook', hconfig'⟩ := step_books hbook (hconfig ▸ hrep) hs
        exact ⟨hbook', hconfig'.trans hconfig⟩

/-- From a session without booked identifiers, a run of PUBLISH packets does what the run without the
repetitions does: a packet is discarded exactly if it repeats one before it, however long ago. So of
each QoS at most 65536 unflagged packets are ever acted on. -/
theorem acts_once_per_identifier (h1 : st₀.session.qos1 = []) (h2 : st₀.session.qos2 = [])
    (hist : List Publish) :
    run step st₀ hist =
        run step st₀ (Publish.withoutRepeats st₀.session.config.mqttIgnoreDuplicate hist) ∧
      ∀ st, run step st₀ hist = some st →
        (∀ publ, st.session.isDuplicate publ = .ok true ↔
          publ.Repeats st₀.session.config.mqttIgnoreDuplicate hist) ∧
        ∀ qos, qos ≠ .atMostOnce →
          (Publish.withoutRepeats st₀.session.config.mqttIgnoreDuplicate hist).countP (fun p =>
            p.qos = qos ∧ (p.duplicate && st₀.session.config.mqttIgnoreDuplicate) = false) ≤ 65536 := by
  obtain ⟨hsame, hbooks⟩ := run_withoutRepeats (Session.books_of_fresh h1 h2) hist
  refine ⟨hsame, fun st hrun => ?_⟩
  obtain ⟨hbook, hconfig⟩ := hbooks st hrun
  refine ⟨fun publ => ?_, fun qos hqos => Publish.countP_withoutRepeats_le hqos hbook.named⟩
  rw [hbook.isDuplicate_iff, hconfig, Publish.repeats_withoutRepeats_iff]

def news (duplicate : Bool) (packetId : UInt16) : Publish :=
  ⟨false, .atLeastOnce, duplicate, ⟨"news"⟩, some packetId, none, some [1]⟩

theorem acts_once_per_identifier_reused :
    (run step aliasless [news false 7, news false 8, news false 7]).isSome = true ∧
      run step aliasless [news false 7, news false 8, news false 7] =
        run step aliasless [news false 7, news false 8] := by
  have hrun : (run step aliasless [news false 7, news false 8, news false 7]).isSome = true := by
    rfl
  have honce : Publish.withoutRepeats aliasless.session.config.mqttIgnoreDuplicate
      [news false 7, news false 8, news false 7] = [news false 7, news false 8] := by
    decide
  obtain ⟨hsame, -⟩ := @acts_once_per_identifier aliasless rfl rfl
    [news false 7, news false 8, news false 7]
  rw [honce] at hsame
  exact ⟨hrun, hsame⟩

end Publishing
end Mqtr
