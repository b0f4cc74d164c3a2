import Mqtr.Wire.MessageLayouts

/-! Which lists of properties are read, and what is read from them. A decoder of a field looks at no byte
beyond those that it uses, so that the properties of a list can change places. -/
namespace Mqtr
open Outcome Codec Grouping

/-- A decoder that looks at no byte beyond those it uses. -/
class Packetize.Local (α : Type) [Packetize α] : Prop where
  decode_congr {s s' : List UInt8} {v : α} {n : ℕ} (h : decode s = .ok (v, n))
    (hs : s'.take n = s.take n) : decode s' = .ok (v, n)

export Packetize.Local (decode_congr)

theorem le_length_of_take_eq {s s' : List UInt8} {n : ℕ} (hn : n ≤ s.length)
    (hs : s'.take n = s.take n) : n ≤ s'.length := by
  have hlen := congrArg List.length hs
  simp only [List.length_take] at hlen
  omega

instance : Packetize.Local UInt8 where
  decode_congr {s s' v n} h hs := by
    rcases s with _ | ⟨a, s⟩
    · exact absurd h (errCode_ne_ok _ _ _ _)
    · obtain ⟨rfl, rfl⟩ := Prod.mk.inj (Outcome.ok.inj h)
      rcases s' with _ | ⟨a', s'⟩
      · cases hs
      · obtain ⟨rfl, -⟩ := List.cons.inj hs
        rfl

instance : Packetize.Local UInt16 where
  decode_congr {s s' v n} h hs := by
    rcases s with _ | ⟨a, _ | ⟨b, s⟩⟩
    · exact absurd h (errCode_ne_ok _ _ _ _)
    · exact absurd h (errCode_ne_ok _ _ _ _)
    · obtain ⟨rfl, rfl⟩ := Prod.mk.inj (Outcome.ok.inj h)
      rcases s' with _ | ⟨a', _ | ⟨b', s'⟩⟩ <;> cases hs
      rfl

instance : Packetize.Local UInt32 where
  decode_congr {s s' v n} h hs := by
    rcases s with _ | ⟨a, _ | ⟨b, _ | ⟨c, _ | ⟨d, s⟩⟩⟩⟩
    case cons.cons.cons.cons =>
      obtain ⟨rfl, rfl⟩ := Prod.mk.inj (Outcome.ok.inj h)
      rcases s' with _ | ⟨a', _ | ⟨b', _ | ⟨c', _ | ⟨d', s'⟩⟩⟩⟩ <;> cases hs
      rfl
    all_goals exact absurd h (errCode_ne_ok _ _ _ _)

/-- What the decoders of texts look at: the length in front, and as many bytes. -/
theorem text_congr {s s' : List UInt8} {len : UInt16} {k : ℕ} (hlen : decode s = .ok (len, k))
    (hle : 2 + len.toNat ≤ s.length) (hs : s'.take (2 + len.toNat) = s.take (2 + len.toNat)) :
    decode s' = .ok (len, k) ∧ 2 + len.toNat ≤ s'.length ∧
      (slice s' 2 (2 + len.toNat) : Result (List UInt8)) = slice s 2 (2 + len.toNat) := by
  have hle' := le_length_of_take_eq hle hs
  have hk : k = 2 := by
    rcases s with _ | ⟨a, _ | ⟨b, s⟩⟩
    · exact absurd hlen (errCode_ne_ok _ _ _ _)
    · exact absurd hlen (errCode_ne_ok _ _ _ _)
    · exact (Prod.mk.inj (Outcome.ok.inj hlen)).2.symm
  refine ⟨decode_congr hlen ?_, hle', ?_⟩
  · have htwo := congrArg (List.take 2) hs
    rw [List.take_take, List.take_take, Nat.min_eq_left (by omega)] at htwo
    rwa [hk]
  · rw [slice_of_le (by omega) hle, slice_of_le (by omega) hle', ← List.drop_take, ← List.drop_take, hs]

instance : Packetize.Local String where
  decode_congr {s s' v n} h hs := by
    obtain ⟨⟨len, k⟩, hlen, h⟩ := bind_eq_ok.mp h
    dsimp only at h
    split_ifs at h with hshort
    · exact absurd h (errCode_ne_ok _ _ _ _)
    obtain ⟨bytes, hbytes, h⟩ := bind_eq_ok.mp h
    obtain rfl : 2 + len.toNat = n := by
      split at h
      next =>
        split_ifs at h
        · exact (Prod.mk.inj (Outcome.ok.inj h)).2
        · exact absurd h (errCode_ne_ok _ _ _ _)
      next => exact absurd h (errCode_ne_ok _ _ _ _)
    obtain ⟨hlen', hle', hslice⟩ := text_congr hlen (by omega) hs
    refine bind_eq_ok.mpr ⟨(len, k), hlen', ?_⟩
    dsimp only
    rw [if_neg (by omega)]
    exact bind_eq_ok.mpr ⟨bytes, hslice.trans hbytes, h⟩

instance : Packetize.Local (List UInt8) where
  decode_congr {s s' v n} h hs := by
    obtain ⟨⟨len, k⟩, hlen, h⟩ := bind_eq_ok.mp h
    dsimp only at h
    split_ifs at h with hshort
    · exact absurd h (errCode_ne_ok _ _ _ _)
    obtain ⟨bytes, hbytes, h⟩ := bind_eq_ok.mp h
    obtain ⟨rfl, rfl⟩ := Prod.mk.inj (Outcome.ok.inj h)
    obtain ⟨hlen', hle', hslice⟩ := text_congr hlen (by omega) hs
    refine bind_eq_ok.mpr ⟨(len, k), hlen', ?_⟩
    dsimp only
    rw [if_neg (by omega)]
    exact bind_eq_ok.mpr ⟨bytes, hslice.trans hbytes, rfl⟩

instance : Packetize.Local TopicName where
  decode_congr h hs := by
    obtain ⟨hval, hvalid⟩ := TopicName.decode_eq_ok.mp h
    exact TopicName.decode_eq_ok.mpr ⟨decode_congr hval hs, hvalid⟩

/-- Two streams that agree as far as two readers go agree for each of them. -/
theorem take_eq_of_add {s s' : List UInt8} {n m : ℕ} (hs : s'.take (n + m) = s.take (n + m)) :
    s'.take n = s.take n ∧ (s'.drop n).take m = (s.drop n).take m := by
  constructor
  · have hn := congrArg (List.take n) hs
    rwa [List.take_take, List.take_take, Nat.min_eq_left (Nat.le_add_right n m)] at hn
  · have hm := congrArg (List.drop n) hs
    rwa [List.drop_take, List.drop_take, Nat.add_sub_cancel_left] at hm

instance : Packetize.Local UserProperty where
  decode_congr {s s' v n} h hs := by
    obtain ⟨⟨key, k⟩, hkey, h⟩ := bind_eq_ok.mp h
    obtain ⟨rest, hrest, h⟩ := bind_eq_ok.mp h
    obtain ⟨hk, rfl⟩ := (advance_sat s k).of_ok hrest
    obtain ⟨⟨val, m⟩, hval, h⟩ := bind_eq_ok.mp h
    obtain ⟨rfl, rfl⟩ := Prod.mk.inj (Outcome.ok.inj h)
    obtain ⟨hfirst, hsecond⟩ := take_eq_of_add hs
    refine bind_eq_ok.mpr ⟨(key, k), decode_congr hkey hfirst, ?_⟩
    refine bind_eq_ok.mpr ⟨s'.drop k, advance_of_le (le_length_of_take_eq hk hfirst), ?_⟩
    exact bind_eq_ok.mpr ⟨(val, m), decode_congr hval hsecond, rfl⟩

instance : Packetize.Local VarU32 where
  decode_congr {s s' v n} h hs := by
    rw [VarU32.decode_eq] at h ⊢
    cases hk : Varint.width (s.take 4) with
    | none =>
      rw [hk] at h
      exact absurd h (errCode_ne_ok _ _ _ _)
    | some k =>
      rw [hk] at h
      obtain ⟨rfl, rfl⟩ := Prod.mk.inj (Outcome.ok.inj h)
      have hk4 : k ≤ 4 := (Varint.width_bounds hk).2.trans (List.length_take_le _ _)
      have hwidth : Varint.width (s'.take 4) = some k := by
        have hhead := Varint.width_take hk le_rfl
        rw [List.take_take, Nat.min_eq_left hk4, ← hs] at hhead
        have hsplit : s'.take 4 = s'.take k ++ (s'.take 4).drop k := by
          have htake := List.take_append_drop k (s'.take 4)
          rw [List.take_take, Nat.min_eq_left hk4] at htake
          exact htake.symm
        rw [hsplit]
        exact Varint.width_append hhead _
      rw [hwidth]
      dsimp only
      rw [hs]

namespace Property

theorem decProp_congr {α : Type} [Packetize α] [Packetize.Local α] {varn : α → Property}
    {s s' : List UInt8} {p : Property} {n : ℕ} (h : decProp α varn s = .ok (p, n))
    (hs : s'.take n = s.take n) : decProp α varn s' = .ok (p, n) := by
  obtain ⟨⟨val, k⟩, hval, h⟩ := bind_eq_ok.mp h
  obtain ⟨rfl, rfl⟩ := Prod.mk.inj (Outcome.ok.inj h)
  exact bind_eq_ok.mpr ⟨(val, k), decode_congr hval hs, rfl⟩

theorem decodeValue_congr {pt : PropertyType} {s s' : List UInt8} {p : Property} {n : ℕ}
    (h : decodeValue pt s = .ok (p, n)) (hs : s'.take n = s.take n) :
    decodeValue pt s' = .ok (p, n) := by
  cases pt with
  | maximumQoS =>
    obtain ⟨⟨val, k⟩, hval, h⟩ := bind_eq_ok.mp h
    obtain ⟨qos, hqos, h⟩ := bind_eq_ok.mp h
    obtain ⟨rfl, rfl⟩ := Prod.mk.inj (Outcome.ok.inj h)
    exact bind_eq_ok.mpr ⟨(val, k), decode_congr hval hs, bind_eq_ok.mpr ⟨qos, hqos, rfl⟩⟩
  | _ => exact decProp_congr h hs

end Property

instance : Packetize.Local Property where
  decode_congr {s s' v n} h hs := by
    obtain ⟨⟨propType, k⟩, htype, h⟩ := bind_eq_ok.mp h
    obtain ⟨rest, hrest, h⟩ := bind_eq_ok.mp h
    obtain ⟨hk, rfl⟩ := (advance_sat s k).of_ok hrest
    obtain ⟨pt, hpt, h⟩ := bind_eq_ok.mp h
    obtain ⟨⟨p, m⟩, hvalue, h⟩ := bind_eq_ok.mp h
    obtain ⟨rfl, rfl⟩ := Prod.mk.inj (Outcome.ok.inj h)
    obtain ⟨hfirst, hsecond⟩ := take_eq_of_add hs
    obtain ⟨-, j, hhead, hj⟩ := decField_eq_ok.mp htype
    obtain rfl : k = j := by omega
    refine bind_eq_ok.mpr ⟨(propType, k), ?_, ?_⟩
    · rw [List.drop_zero] at hhead
      exact decField_eq_ok.mpr ⟨Nat.zero_le _, k, decode_congr hhead hfirst, hj⟩
    · refine bind_eq_ok.mpr ⟨s'.drop k, advance_of_le (le_length_of_take_eq hk hfirst), ?_⟩
      refine bind_eq_ok.mpr ⟨pt, hpt, ?_⟩
      exact bind_eq_ok.mpr ⟨(p, m), Property.decodeValue_congr hvalue hsecond, rfl⟩

/-- Bytes that are one property each, with the property. -/
def Segments (segs : List (List UInt8 × Property)) : Prop :=
  ∀ seg ∈ segs, decode seg.1 = .ok (seg.2, seg.1.length)

/-- Where properties are read one after the other, each of them has its bytes. -/
theorem segments_of_readsUntil {s : List UInt8} {limit n k : ℕ} {ps : List Property}
    (h : ReadsUntil (decField Property s) limit n ps k) :
    ∃ segs, segs.map Prod.snd = ps ∧ Segments segs ∧
      s.drop n = segs.flatMap Prod.fst ++ s.drop k ∧ k = n + (segs.flatMap Prod.fst).length := by
  induction h with
  | stop hstop => exact ⟨[], rfl, by simp [Segments], rfl, rfl⟩
  | @next n m k p ps _ hp _ ih =>
    obtain ⟨segs, hmap, hsegs, hdrop, hk⟩ := ih
    obtain ⟨-, j, hread, rfl⟩ := decField_eq_ok.mp hp
    have hj : ((s.drop n).take j).length = j :=
      List.length_take_of_le ((decode_sat (s.drop n)).of_ok hread).2
    refine ⟨((s.drop n).take j, p) :: segs, by rw [List.map_cons, hmap], ?_, ?_, ?_⟩
    · intro seg hseg
      rcases List.mem_cons.mp hseg with rfl | hseg
      · dsimp only
        rw [hj]
        exact decode_congr hread (by rw [List.take_take, Nat.min_self])
      · exact hsegs seg hseg
    · rw [List.flatMap_cons, List.append_assoc, ← hdrop, ← List.drop_drop, List.take_append_drop]
    · rw [List.flatMap_cons, List.length_append, hj, hk, Nat.add_assoc]

/-- Such bytes one after the other are read as their properties. -/
theorem readsUntil_segments {s rest : List UInt8} {segs : List (List UInt8 × Property)}
    (hsegs : Segments segs) {n : ℕ} (hat : At s n (segs.flatMap Prod.fst ++ rest)) :
    ReadsUntil (decField Property s) (n + (segs.flatMap Prod.fst).length) n (segs.map Prod.snd)
      (n + (segs.flatMap Prod.fst).length) := by
  induction segs generalizing n with
  | nil => exact .stop le_rfl
  | cons seg segs ih =>
    have hseg := hsegs seg List.mem_cons_self
    have hpos := ((decode_sat seg.1).of_ok hseg).1
    rw [List.flatMap_cons, List.append_assoc] at hat
    rw [List.flatMap_cons, List.length_append, ← Nat.add_assoc, List.map_cons]
    refine .next (by omega) (decField_of_decode (decode_congr hseg ?_) hat) (ih ?_ hat.next)
    · rw [List.take_left, List.take_length]
    · exact fun seg' hmem => hsegs seg' (List.mem_cons_of_mem _ hmem)

namespace PropertyList
variable {σ : Type} (list : PropertyList σ)

/-- The decoder of a list folds the properties that are read up to the length that is announced. -/
theorem decode_eq_ok {init x : σ} {s : List UInt8} {n : ℕ} :
    list.decode init s = .ok (x, n) ↔
      ∃ (len : VarU32) (m : ℕ) (ps : List Property) (dups : List PropertyType),
        Mqtr.decode s = .ok (len, m) ∧
        ReadsUntil (decField Property s) (m + len.val.toNat) m ps n ∧
        ps.foldlM list.step (init, []) = .ok (x, dups) := by
  have hloop {limit m : ℕ} {st : σ × List PropertyType} (hm : m ≤ s.length) :
      readLoop (decField Property s) list.step limit (s.length + 1) m (init, []) = .ok (st, n) ↔
        ∃ ps, ReadsUntil (decField Property s) limit m ps n ∧
          ps.foldlM list.step (init, []) = .ok st :=
    readLoop_eq_ok list.step (fun h => (decField_sat Property s _).of_ok h) hm (by omega)
  constructor
  · intro h
    obtain ⟨⟨len, m⟩, hlen, h⟩ := bind_eq_ok.mp h
    obtain ⟨⟨⟨y, dups⟩, k⟩, hread, h⟩ := bind_eq_ok.mp h
    obtain ⟨rfl, rfl⟩ := Prod.mk.inj (Outcome.ok.inj h)
    obtain ⟨-, j, hhead, rfl⟩ := decField_eq_ok.mp hlen
    obtain ⟨ps, hps, hfold⟩ := (hloop ((decField_sat VarU32 s 0).of_ok hlen).2).mp hread
    rw [Nat.zero_add, Nat.add_comm len.val.toNat] at hps
    exact ⟨len, j, ps, dups, hhead, hps, hfold⟩
  · rintro ⟨len, m, ps, dups, hhead, hps, hfold⟩
    have hm := ((Packetize.Bounded.decode_sat s).of_ok hhead).2
    have hlen : decField VarU32 s 0 = .ok (len, m) :=
      decField_eq_ok.mpr ⟨Nat.zero_le _, m, hhead, (Nat.zero_add m).symm⟩
    rw [Nat.add_comm m] at hps
    refine bind_eq_ok.mpr ⟨(len, m), hlen, bind_eq_ok.mpr ⟨((x, dups), n), ?_, rfl⟩⟩
    exact (hloop hm).mpr ⟨ps, hps, hfold⟩

end PropertyList

/-- The properties whose values are restricted have one that they may have. -/
def Property.ValidValue : Property → Prop
  | .receiveMaximum val => val ≠ 0
  | .maximumPacketSize val => val ≠ 0
  | .subscriptionIdentifier val => val.val ≠ 0
  | .payloadFormatIndicator val | .requestResponseInformation val | .requestProblemInformation val
  | .retainAvailable val | .wildcardSubscriptionAvailable val
  | .subscriptionIdentifierAvailable val | .sharedSubscriptionAvailable val => val = 0 ∨ val = 1
  | _ => True

/-- The length at the start of the stream is read in `m` bytes, and from there on properties are read one
after the other until position `n`, the first at or beyond the end that the length announces. -/
structure Listed (s : List UInt8) (len : UInt32) (m : ℕ) (ps : List Property) (n : ℕ) : Prop where
  head : decode s = .ok (VarU32.mk len, m)
  reads : ReadsUntil (decField Property s) (m + len.toNat) m ps n

/-- What a list must be: all of its properties are of types that the record has room for and have values
that they may have, only user properties come more than once, and what is required is there. -/
structure Acceptable {π : Type} (L : Layout π) (required : List PropertyType) (ps : List Property) :
    Prop where
  allowed : ∀ q ∈ ps, q.toPropertyType ∈ L.order ∧ q.ValidValue
  once : Sparse notUserProp ps
  complete : ∀ pt ∈ required, ∃ q ∈ ps, q.toPropertyType = pt

/-- What a record shows of a list: a payload format of zero is its default. -/
def shown (ps : List Property) : List Property := ps.filter fun q => q ≠ .payloadFormatIndicator 0

/-- The user properties among the pieces of a list. -/
def userSegments (segs : List (List UInt8 × Property)) : List (List UInt8 × Property) :=
  segs.filter fun seg => seg.2.toPropertyType = .userProp

/-- The decoder of a set of properties always returns; it accepts exactly the acceptable lists, and what
it returns holds their properties. When they end where the length says, which is what `dec_props!` wants,
only the order of the user properties matters. -/
structure AcceptsExactly (σ : Type) [Packetize σ] {π : Type} (L : Layout π) (view : σ → π)
    (required : List PropertyType) : Prop where
  returns (s : List UInt8) : (decode s : Result (σ × ℕ)) ≠ .panic
  accepts (s : List UInt8) (n : ℕ) : (∃ r : σ, decode s = .ok (r, n)) ↔
    ∃ len m ps, Listed s len m ps n ∧ Acceptable L required ps
  holds {s : List UInt8} {r : σ} {len : UInt32} {m n : ℕ} {ps : List Property} :
    decode s = .ok (r, n) → Listed s len m ps n → L.Holds (view r) (shown ps)
  rearranged {s : List UInt8} {r : σ} {len : UInt32} {m : ℕ} : decode s = .ok (VarU32.mk len, m) →
    decode s = .ok (r, m + len.toNat) →
    ∃ segs, s = s.take m ++ segs.flatMap Prod.fst ++ s.drop (m + len.toNat) ∧ Segments segs ∧
      ∀ segs', segs'.Perm segs → userSegments segs' = userSegments segs →
        decode (s.take m ++ segs'.flatMap Prod.fst ++ s.drop (m + len.toNat)) =
          .ok (r, m + len.toNat)
  ends {s : List UInt8} {k n : ℕ} {r : σ} : decProps σ s k = .ok (some r, n) →
    ∃ len m, decode (s.drop k) = .ok (VarU32.mk len, m) ∧
      decode (s.drop k) = .ok (r, m + len.toNat)

theorem shown_concat (ps : List Property) {q : Property} (hq : q ≠ .payloadFormatIndicator 0) :
    shown (ps ++ [q]) = shown ps ++ [q] := by
  simp [shown, hq]

theorem shown_concat_default (ps : List Property) :
    shown (ps ++ [.payloadFormatIndicator 0]) = shown ps := by
  simp [shown]

theorem group_shown (ps : List Property) (pt : PropertyType) :
    group Property.toPropertyType (shown ps) pt = shown (group Property.toPropertyType ps pt) := by
  simp only [group, shown, List.filter_filter, Bool.and_comm]

/-- A type that is not that of the default is shown whenever it is there. -/
theorem group_shown_ne_nil_iff {ps : List Property} {pt : PropertyType}
    (hpt : pt ≠ .payloadFormatIndicator) :
    group Property.toPropertyType (shown ps) pt ≠ [] ↔ ∃ q ∈ ps, q.toPropertyType = pt := by
  simp only [ne_eq, List.eq_nil_iff_forall_not_mem, not_forall, not_not, mem_group, shown,
    List.mem_filter, decide_eq_true_eq]
  constructor
  · rintro ⟨q, ⟨hq, -⟩, rfl⟩
    exact ⟨q, hq, rfl⟩
  · rintro ⟨q, hq, rfl⟩
    exact ⟨q, ⟨hq, fun he => hpt (by rw [he]; rfl)⟩, rfl⟩

/-- Rearranging the properties that come only once changes no group. -/
theorem group_eq_of_perm {ps ps' : List Property} (hperm : ps'.Perm ps) (honce : Sparse notUserProp ps)
    (huser : group Property.toPropertyType ps' .userProp = group Property.toPropertyType ps .userProp)
    (pt : PropertyType) :
    group Property.toPropertyType ps' pt = group Property.toPropertyType ps pt := by
  by_cases hpt : pt = .userProp
  · rw [hpt, huser]
  · have hgroup : (group Property.toPropertyType ps' pt).Perm (group Property.toPropertyType ps pt) :=
      hperm.filter _
    have hlen := honce pt (by simp [notUserProp, hpt])
    rcases hps : group Property.toPropertyType ps pt with _ | ⟨q, _ | ⟨q', qs⟩⟩
    · rw [hps] at hgroup
      exact hgroup.eq_nil
    · rw [hps] at hgroup
      exact List.perm_singleton.mp hgroup
    · simp [hps] at hlen

/-- What makes a list of properties the reader of a record: the properties it takes are those that the
record has room for, and a record that holds what is required is one that it can return. -/
structure Reader (σ : Type) [Packetize σ] {π : Type} (L : Layout π) (list : PropertyList π) (init : π)
    (view : σ → π) (required : List PropertyType) : Prop where
  lawful : L.Lawful list init
  unique : list.unique = notUserProp
  single : L.single = notUserProp
  take_iff (q : Property) :
    (∃ x, list.take init q = .ok x) ↔ q.toPropertyType ∈ L.order ∧ q.ValidValue
  take_default {x x' : π} : list.take x (.payloadFormatIndicator 0) = .ok x' →
    L.held x .payloadFormatIndicator = [] → x' = x
  decode_iff {s : List UInt8} {r : σ} {n : ℕ} :
    decode s = .ok (r, n) ↔ list.decode init s = .ok (view r, n)
  complete_iff (x : π) : (∃ r, view r = x) ↔ ∀ pt ∈ required, L.held x pt ≠ []
  required_shown : .payloadFormatIndicator ∉ required

namespace Reader
variable {σ : Type} [Packetize σ] {π : Type} {L : Layout π} {list : PropertyList π} {init : π}
  {view : σ → π} {required : List PropertyType} (hR : Reader σ L list init view required)
include hR

theorem accepts_iff (q : Property) : list.Accepts q ↔ q.toPropertyType ∈ L.order ∧ q.ValidValue := by
  rw [← hR.take_iff]
  exact ⟨fun ⟨_, _, h⟩ => hR.lawful.take_any h init, fun ⟨x, h⟩ => ⟨init, x, h⟩⟩

/-- Reading a list puts what is shown of it into the record. -/
theorem holds_fold {ps qs : List Property} {x x' : π} {dups dups' : List PropertyType}
    (h : qs.foldlM list.step (x, dups) = .ok (x', dups')) (hx : L.Holds x (shown ps))
    (honce : Sparse notUserProp (ps ++ qs)) : L.Holds x' (shown (ps ++ qs)) := by
  induction qs generalizing ps x dups with
  | nil =>
    obtain ⟨rfl, rfl⟩ := Prod.mk.inj (Outcome.ok.inj h)
    rwa [List.append_nil]
  | cons q qs ih =>
    rw [List.foldlM_cons] at h
    obtain ⟨⟨y, dups₁⟩, hstep, h⟩ := bind_eq_ok.mp h
    obtain ⟨-, htake, -⟩ := list.step_eq_ok.mp hstep
    have hroom (hq : notUserProp q.toPropertyType = true) :
        group Property.toPropertyType (shown ps) q.toPropertyType = [] := by
      rw [group_shown, honce.group_eq_nil hq]
      rfl
    rw [List.append_cons] at honce ⊢
    refine ih h ?_ honce
    by_cases hq : q = .payloadFormatIndicator 0
    · subst hq
      have hempty : L.held x .payloadFormatIndicator = [] := (hx _).trans (hroom rfl)
      rw [hR.take_default htake hempty, shown_concat_default]
      exact hx
    · rw [shown_concat ps hq]
      exact (hR.lawful.holds_take htake hx hq fun hs => hroom (hR.single ▸ hs)).1

/-- The fold succeeds on the lists of allowed properties without repetitions, and only on these. -/
theorem fold_iff (ps : List Property) :
    (∃ x dups, ps.foldlM list.step (init, []) = .ok (x, dups)) ↔
      (∀ q ∈ ps, q.toPropertyType ∈ L.order ∧ q.ValidValue) ∧ Sparse notUserProp ps := by
  constructor
  · rintro ⟨x, dups, hfold⟩
    refine ⟨fun q hq => (hR.accepts_iff q).mp (PropertyList.accepts_of_fold [] hfold q hq), ?_⟩
    have hsparse := PropertyList.sparse_of_fold [] hfold fun _ _ => by simp
    rwa [hR.unique] at hsparse
  · rintro ⟨hallowed, honce⟩
    rw [← hR.unique] at honce
    have hany : ∀ q, list.Accepts q → ∀ x, ∃ x', list.take x q = .ok x' := by
      rintro q ⟨_, _, h⟩
      exact hR.lawful.take_any h
    exact PropertyList.exists_fold hany [] init
      (fun q hq => (hR.accepts_iff q).mpr (hallowed q hq)) honce

theorem holds_of_fold {ps : List Property} {x : π} {dups : List PropertyType}
    (h : ps.foldlM list.step (init, []) = .ok (x, dups)) : L.Holds x (shown ps) := by
  have hinit : L.Holds init (shown []) := hR.lawful.holds_init
  exact hR.holds_fold h hinit ((hR.fold_iff ps).mp ⟨x, dups, h⟩).2

/-- The record can be returned when the list has what is required. -/
theorem complete_of_fold {ps : List Property} {x : π} {dups : List PropertyType}
    (h : ps.foldlM list.step (init, []) = .ok (x, dups)) :
    (∃ r, view r = x) ↔ ∀ pt ∈ required, ∃ q ∈ ps, q.toPropertyType = pt := by
  rw [hR.complete_iff]
  refine forall₂_congr fun pt hpt => ?_
  rw [hR.holds_of_fold h pt]
  exact group_shown_ne_nil_iff fun he => hR.required_shown (he ▸ hpt)

theorem decode_listed {s : List UInt8} {r : σ} {len : UInt32} {m n : ℕ} {ps : List Property}
    (h : decode s = .ok (r, n)) (hlist : Listed s len m ps n) :
    ∃ dups, ps.foldlM list.step (init, []) = .ok (view r, dups) := by
  obtain ⟨⟨len'⟩, m', ps', dups, hhead, hreads, hfold⟩ := list.decode_eq_ok.mp (hR.decode_iff.mp h)
  obtain ⟨hlen, rfl⟩ := Prod.mk.inj (Outcome.ok.inj (hlist.head.symm.trans hhead))
  cases hlen
  obtain ⟨rfl, -⟩ := hlist.reads.unique hreads
  exact ⟨dups, hfold⟩

theorem accepts (s : List UInt8) (n : ℕ) : (∃ r : σ, decode s = .ok (r, n)) ↔
    ∃ len m ps, Listed s len m ps n ∧ Acceptable L required ps := by
  constructor
  · rintro ⟨r, h⟩
    obtain ⟨⟨len⟩, m, ps, dups, hhead, hreads, hfold⟩ := list.decode_eq_ok.mp (hR.decode_iff.mp h)
    obtain ⟨hallowed, honce⟩ := (hR.fold_iff ps).mp ⟨_, dups, hfold⟩
    have hcomplete := (hR.complete_of_fold hfold).mp ⟨r, rfl⟩
    exact ⟨len, m, ps, ⟨hhead, hreads⟩, ⟨hallowed, honce, hcomplete⟩⟩
  · rintro ⟨len, m, ps, hlist, hacc⟩
    obtain ⟨x, dups, hfold⟩ := (hR.fold_iff ps).mpr ⟨hacc.allowed, hacc.once⟩
    obtain ⟨r, rfl⟩ := (hR.complete_of_fold hfold).mpr hacc.complete
    exact ⟨r, hR.decode_iff.mpr
      (list.decode_eq_ok.mpr ⟨⟨len⟩, m, ps, dups, hlist.head, hlist.reads, hfold⟩)⟩

/-- A rearranged list that only keeps the order of the user properties is read as the same record. -/
theorem fold_perm {ps ps' : List Property} {x : π} {dups : List PropertyType}
    (h : ps.foldlM list.step (init, []) = .ok (x, dups)) (hperm : ps'.Perm ps)
    (huser : group Property.toPropertyType ps' .userProp =
      group Property.toPropertyType ps .userProp) :
    ∃ dups', ps'.foldlM list.step (init, []) = .ok (x, dups') := by
  obtain ⟨hallowed, honce⟩ := (hR.fold_iff ps).mp ⟨x, dups, h⟩
  have hgroup := group_eq_of_perm hperm honce huser
  have honce' : Sparse notUserProp ps' := by
    intro pt hpt
    rw [hgroup]
    exact honce pt hpt
  obtain ⟨x', dups', hfold⟩ :=
    (hR.fold_iff ps').mpr ⟨fun q hq => hallowed q (hperm.mem_iff.mp hq), honce'⟩
  have hsame : x' = x := by
    apply hR.lawful.held_ext
    intro pt
    rw [hR.holds_of_fold hfold, hR.holds_of_fold h, group_shown, group_shown, hgroup]
  exact ⟨dups', hsame ▸ hfold⟩

theorem rearranged {s : List UInt8} {r : σ} {len : UInt32} {m : ℕ}
    (hhead : decode s = .ok (VarU32.mk len, m)) (h : decode s = .ok (r, m + len.toNat)) :
    ∃ segs, s = s.take m ++ segs.flatMap Prod.fst ++ s.drop (m + len.toNat) ∧ Segments segs ∧
      ∀ segs', segs'.Perm segs → userSegments segs' = userSegments segs →
        decode (s.take m ++ segs'.flatMap Prod.fst ++ s.drop (m + len.toNat)) =
          .ok (r, m + len.toNat) := by
  obtain ⟨⟨len'⟩, m', ps, dups, hhead', hreads, hfold⟩ := list.decode_eq_ok.mp (hR.decode_iff.mp h)
  obtain ⟨hlen, rfl⟩ := Prod.mk.inj (Outcome.ok.inj (hhead.symm.trans hhead'))
  cases hlen
  obtain ⟨segs, rfl, hsegs, hdrop, hend⟩ := segments_of_readsUntil hreads
  have hcut : s = s.take m ++ segs.flatMap Prod.fst ++ s.drop (m + len.toNat) := by
    rw [List.append_assoc, ← hdrop, List.take_append_drop]
  refine ⟨segs, hcut, hsegs, fun segs' hperm huser => ?_⟩
  have hm : (s.take m).length = m :=
    List.length_take_of_le ((Packetize.Bounded.decode_sat s).of_ok hhead).2
  have hlen : (segs'.flatMap Prod.fst).length = len.toNat := by
    rw [(hperm.flatMap_right Prod.fst).length_eq]
    omega
  -- the length in front is the same, and the properties after it are those of the pieces
  have hat : At (s.take m ++ segs'.flatMap Prod.fst ++ s.drop (m + len.toNat)) m
      (segs'.flatMap Prod.fst ++ s.drop (m + len.toNat)) := by
    have hnext := (At.start (s.take m ++ (segs'.flatMap Prod.fst ++ s.drop (m + len.toNat)))).next
    rwa [Nat.zero_add, hm, ← List.append_assoc] at hnext
  have hreads' := readsUntil_segments (fun seg hseg => hsegs seg (hperm.mem_iff.mp hseg)) hat
  rw [hlen] at hreads'
  obtain ⟨dups', hfold'⟩ := hR.fold_perm hfold (hperm.map Prod.snd) <| by
    simp only [group, List.filter_map]
    exact congrArg (List.map Prod.snd) huser
  refine hR.decode_iff.mpr (list.decode_eq_ok.mpr ⟨⟨len⟩, m, _, dups', ?_, hreads', hfold'⟩)
  refine decode_congr hhead ?_
  rw [List.append_assoc, List.take_append_of_le_length hm.ge, List.take_take, Nat.min_self]

theorem acceptsExactly [Packetize.Bounded σ] : AcceptsExactly σ L view required where
  returns s := (decode_sat s).ne_panic
  accepts := hR.accepts
  holds h hlist := by
    obtain ⟨dups, hfold⟩ := hR.decode_listed h hlist
    exact hR.holds_of_fold hfold
  rearranged := hR.rearranged
  ends h := by
    obtain ⟨⟨len⟩, m, hhead, -, hr, -⟩ := decode_of_decProps h
    exact ⟨len, m, hhead, hr⟩

end Reader

theorem exists_unless {α : Type} {c : Prop} [Decidable c] {d : String} {a : α} :
    (∃ x, (if c then protocolErr d else .ok a : Result α) = .ok x) ↔ ¬ c := by
  by_cases hc : c
  · simp [hc, protocolErr]
  · simp [hc]

theorem exists_flagValue {α : Type} {name : String} {val : UInt8} {f : Bool → α} :
    (∃ x, (flagValue name val >>= fun b => .ok (f b)) = .ok x) ↔ val = 0 ∨ val = 1 := by
  unfold flagValue
  split
  · simp
  · simp
  next h0 h1 => exact iff_of_false (by simp [errCode]) (not_or.mpr ⟨h0, h1⟩)

theorem exists_format {α : Type} {val : UInt8} {f : PayloadFormat → α} :
    (∃ x, (PayloadFormat.tryFrom val >>= fun format => .ok (f format)) = .ok x) ↔
      val = 0 ∨ val = 1 := by
  unfold PayloadFormat.tryFrom
  split
  · simp
  · simp
  next h0 h1 => exact iff_of_false (by simp [errCode]) (not_or.mpr ⟨h0, h1⟩)

/-- A reader that returns the record it has built. -/
theorem reader_of_list {σ : Type} [Packetize σ] {L : Layout σ} {list : PropertyList σ} {init : σ}
    (hL : L.Lawful list init) (hunique : list.unique = notUserProp) (hsingle : L.single = notUserProp)
    (htake : ∀ q, (∃ x, list.take init q = .ok x) ↔ q.toPropertyType ∈ L.order ∧ q.ValidValue)
    (hdefault : ∀ {x x'}, list.take x (.payloadFormatIndicator 0) = .ok x' →
      L.held x .payloadFormatIndicator = [] → x' = x)
    (hdecode : ∀ s, (decode s : Result (σ × ℕ)) = list.decode init s) :
    Reader σ L list init id [] where
  lawful := hL
  unique := hunique
  single := hsingle
  take_iff := htake
  take_default := hdefault
  decode_iff {s r n} := by rw [hdecode, id]
  complete_iff x := by simp
  required_shown := List.not_mem_nil

theorem ConnectProperties.reader :
    Reader ConnectProperties ConnectProperties.layout ConnectProperties.list {} id [] := by
  refine reader_of_list layout_lawful rfl rfl (fun q => ?_) (fun h _ => ?_) fun _ => rfl
  · cases q <;> simp [list, take, layout, Property.toPropertyType, Property.ValidValue,
      protocolErr_ne_ok, exists_unless, exists_flagValue]
  · exact absurd h (protocolErr_ne_ok _ _)

theorem WillProperties.reader :
    Reader WillProperties WillProperties.layout WillProperties.list {} id [] := by
  refine reader_of_list layout_lawful rfl rfl (fun q => ?_) (fun {x x'} h hempty => ?_) fun _ => rfl
  · cases q <;> simp [list, take, layout, Property.toPropertyType, Property.ValidValue,
      protocolErr_ne_ok, exists_format]
  · obtain rfl := Outcome.ok.inj h
    have hbinary : x.payloadFormatIndicator = .binary := heldFormat_inj hempty
    cases x
    cases hbinary
    rfl

theorem ConnAckProperties.reader :
    Reader ConnAckProperties ConnAckProperties.layout ConnAckProperties.list {} id [] := by
  refine reader_of_list layout_lawful rfl rfl (fun q => ?_) (fun h _ => ?_) fun _ => rfl
  · cases q <;> simp [list, take, layout, Property.toPropertyType, Property.ValidValue,
      protocolErr_ne_ok, exists_unless, exists_flagValue]
  · exact absurd h (protocolErr_ne_ok _ _)

/-- The three acknowledgements differ only in their texts. -/
theorem ReasonProperties.take_iff (repeated bad : PropertyType → String) (q : Property) :
    (∃ x, (ReasonProperties.list repeated bad).take ⟨none, []⟩ q = .ok x) ↔
      q.toPropertyType ∈ ReasonProperties.layout.order ∧ q.ValidValue := by
  cases q <;> simp [list, layout, Property.toPropertyType, Property.ValidValue, protocolErr_ne_ok]

theorem PubProperties.reader :
    Reader PubProperties ReasonProperties.layout PubProperties.list ⟨none, []⟩ id [] :=
  reader_of_list (ReasonProperties.layout_lawful _ _) rfl rfl (ReasonProperties.take_iff _ _)
    (fun h _ => absurd h (protocolErr_ne_ok _ _)) fun _ => rfl

theorem SubAckProperties.reader :
    Reader SubAckProperties ReasonProperties.layout SubAckProperties.list ⟨none, []⟩ id [] :=
  reader_of_list (ReasonProperties.layout_lawful _ _) rfl rfl (ReasonProperties.take_iff _ _)
    (fun h _ => absurd h (protocolErr_ne_ok _ _)) fun _ => rfl

theorem UnsubAckProperties.reader :
    Reader UnsubAckProperties ReasonProperties.layout UnsubAckProperties.list ⟨none, []⟩ id [] :=
  reader_of_list (ReasonProperties.layout_lawful _ _) rfl rfl (ReasonProperties.take_iff _ _)
    (fun h _ => absurd h (protocolErr_ne_ok _ _)) fun _ => rfl

theorem SubscribeProperties.reader :
    Reader SubscribeProperties SubscribeProperties.layout SubscribeProperties.list {} id [] := by
  refine reader_of_list layout_lawful rfl rfl (fun q => ?_) (fun h _ => ?_) fun _ => rfl
  · cases q <;> simp [list, take, layout, Property.toPropertyType, Property.ValidValue,
      protocolErr_ne_ok, exists_unless]
  · exact absurd h (protocolErr_ne_ok _ _)

theorem UnSubscribeProperties.reader :
    Reader UnSubscribeProperties UnSubscribeProperties.layout UnSubscribeProperties.list {} id [] := by
  refine reader_of_list layout_lawful rfl rfl (fun q => ?_) (fun h _ => ?_) fun _ => rfl
  · cases q <;> simp [list, take, layout, Property.toPropertyType, Property.ValidValue,
      protocolErr_ne_ok]
  · exact absurd h (protocolErr_ne_ok _ _)

theorem DisconnProperties.reader :
    Reader DisconnProperties DisconnProperties.layout DisconnProperties.list {} id [] := by
  refine reader_of_list layout_lawful rfl rfl (fun q => ?_) (fun h _ => ?_) fun _ => rfl
  · cases q <;> simp [list, take, layout, Property.toPropertyType, Property.ValidValue,
      protocolErr_ne_ok]
  · exact absurd h (protocolErr_ne_ok _ _)

/-- A method and data have to be there before there is a record. -/
theorem AuthProperties.reader :
    Reader AuthProperties AuthProperties.layout AuthProperties.list {} AuthProperties.toPartial
      [.authenticationMethod, .authenticationData] where
  lawful := layout_lawful
  unique := rfl
  single := rfl
  take_iff q := by
    cases q <;> simp [list, take, layout, Property.toPropertyType, Property.ValidValue,
      protocolErr_ne_ok]
  take_default h _ := absurd h (protocolErr_ne_ok _ _)
  decode_iff := decode_eq_ok
  complete_iff x := by
    obtain ⟨method, data, reason, users⟩ := x
    constructor
    · rintro ⟨r, hr⟩
      cases hr
      simp [layout, heldOpt]
    · intro hall
      have hmethod := hall .authenticationMethod (by simp)
      have hdata := hall .authenticationData (by simp)
      cases method with
      | none => exact absurd rfl hmethod
      | some method =>
        cases data with
        | none => exact absurd rfl hdata
        | some data => exact ⟨⟨method, data, reason, users⟩, rfl⟩
  required_shown := by decide

/-- The ten sets of properties other than that of PUBLISH are read by one rule. -/
theorem property_sets_acceptExactly :
    AcceptsExactly ConnectProperties ConnectProperties.layout id [] ∧
    AcceptsExactly WillProperties WillProperties.layout id [] ∧
    AcceptsExactly ConnAckProperties ConnAckProperties.layout id [] ∧
    AcceptsExactly PubProperties ReasonProperties.layout id [] ∧
    AcceptsExactly SubscribeProperties SubscribeProperties.layout id [] ∧
    AcceptsExactly SubAckProperties ReasonProperties.layout id [] ∧
    AcceptsExactly UnSubscribeProperties UnSubscribeProperties.layout id [] ∧
    AcceptsExactly UnsubAckProperties ReasonProperties.layout id [] ∧
    AcceptsExactly DisconnProperties DisconnProperties.layout id [] ∧
    AcceptsExactly AuthProperties AuthProperties.layout AuthProperties.toPartial
      [.authenticationMethod, .authenticationData] :=
  ⟨ConnectProperties.reader.acceptsExactly, WillProperties.reader.acceptsExactly,
    ConnAckProperties.reader.acceptsExactly,
    PubProperties.reader.acceptsExactly,
    SubscribeProperties.reader.acceptsExactly,
    SubAckProperties.reader.acceptsExactly,
    UnSubscribeProperties.reader.acceptsExactly,
    UnsubAckProperties.reader.acceptsExactly,
    DisconnProperties.reader.acceptsExactly, AuthProperties.reader.acceptsExactly⟩

namespace PublishProperties

/-- A property that a PUBLISH may have, with a value that it may have. -/
def Allowed (q : Property) : Prop :=
  q.toPropertyType ∈ layout.order ∧ q ≠ .topicAlias 0 ∧
    ∀ val, q = .payloadFormatIndicator val → val = 0 ∨ val = 1

/-- The properties that may come more than once. -/
def repeatable (pt : PropertyType) : Bool := pt = .userProp ∨ pt = .subscriptionIdentifier

/-- The bytes are accepted exactly when no other property comes more than once, and then all of those that
may are collected in their order. -/
structure CollectsRepeated (ps : List Property) (b : List UInt8) : Prop where
  accepts : (∃ (r : PublishProperties) (n : ℕ), decode b = .ok (r, n)) ↔
    Sparse (fun pt => !repeatable pt) ps
  userProperties (r : PublishProperties) (n : ℕ) : decode b = .ok (r, n) →
    r.userProperties.map .userProp = group Property.toPropertyType ps .userProp
  subscriptionIds (r : PublishProperties) (n : ℕ) : decode b = .ok (r, n) →
    r.subscribtionIdentifier.map .subscriptionIdentifier =
      group Property.toPropertyType ps .subscriptionIdentifier

theorem take_iff (q : Property) : (∃ x, list.take {} q = .ok x) ↔ Allowed q := by
  cases q <;> simp [list, take, layout, Allowed, Property.toPropertyType, protocolErr_ne_ok,
    exists_unless, exists_format]

/-- A property is added to what may come more than once if it is of such a type. -/
theorem take_collects {x x' : PublishProperties} {q : Property} (h : list.take x q = .ok x')
    {pt : PropertyType} (hpt : repeatable pt = true) :
    layout.held x' pt = layout.held x pt ++ group Property.toPropertyType [q] pt := by
  obtain rfl | rfl : pt = .userProp ∨ pt = .subscriptionIdentifier := of_decide_eq_true hpt
  all_goals
    rw [group_singleton]
    cases q with
    | payloadFormatIndicator val =>
      obtain ⟨format, -, h⟩ := bind_eq_ok.mp h
      obtain rfl := Outcome.ok.inj h
      exact (List.append_nil _).symm
    | topicAlias val =>
      obtain ⟨-, rfl⟩ := nonzero_eq_ok.mp h
      exact (List.append_nil _).symm
    | userProp val | subscriptionIdentifier val =>
      obtain rfl := Outcome.ok.inj h
      first | exact List.map_append | exact (List.append_nil _).symm
    | _ =>
      first
      | obtain rfl := Outcome.ok.inj h
        exact (List.append_nil _).symm
      | exact absurd h (protocolErr_ne_ok _ _)

theorem fold_collects {ps : List Property} {x x' : PublishProperties} {dups dups' : List PropertyType}
    (h : ps.foldlM list.step (x, dups) = .ok (x', dups')) {pt : PropertyType}
    (hpt : repeatable pt = true) :
    layout.held x' pt = layout.held x pt ++ group Property.toPropertyType ps pt := by
  induction ps generalizing x dups with
  | nil =>
    obtain ⟨rfl, rfl⟩ := Prod.mk.inj (Outcome.ok.inj h)
    exact (List.append_nil _).symm
  | cons q ps ih =>
    rw [List.foldlM_cons] at h
    obtain ⟨⟨y, dups₁⟩, hstep, h⟩ := bind_eq_ok.mp h
    obtain ⟨-, htake, -⟩ := list.step_eq_ok.mp hstep
    rw [ih h, take_collects htake hpt, List.append_assoc, ← group_append, List.singleton_append]

/-- What is accepted: lists of allowed properties in which those that may come more than once do not. -/
theorem fold_iff (ps : List Property) :
    (∃ x dups, ps.foldlM list.step ({}, []) = .ok (x, dups)) ↔
      (∀ q ∈ ps, Allowed q) ∧ Sparse repeatable ps := by
  have hunique : list.unique = repeatable := by
    funext pt
    cases pt <;> rfl
  have haccepts (q : Property) : list.Accepts q ↔ Allowed q := by
    rw [← take_iff]
    exact ⟨fun ⟨_, _, h⟩ => layout_lawful.take_any h {}, fun ⟨x, h⟩ => ⟨{}, x, h⟩⟩
  constructor
  · rintro ⟨x, dups, hfold⟩
    refine ⟨fun q hq => (haccepts q).mp (PropertyList.accepts_of_fold [] hfold q hq), ?_⟩
    have hsparse := PropertyList.sparse_of_fold [] hfold fun _ _ => by simp
    rwa [hunique] at hsparse
  · rintro ⟨hall, hsparse⟩
    rw [← hunique] at hsparse
    have hany : ∀ q, list.Accepts q → ∀ x, ∃ x', list.take x q = .ok x' := by
      rintro q ⟨_, _, h⟩
      exact layout_lawful.take_any h
    exact PropertyList.exists_fold hany [] {} (fun q hq => (haccepts q).mpr (hall q hq)) hsparse

theorem decode_encRecord {ps : List Property} {b : List UInt8} (h : encRecord ps = .ok b)
    (hall : ∀ q ∈ ps, Allowed q) (rest : List UInt8) :
    ((∃ (r : PublishProperties) (n : ℕ), decode (b ++ rest) = .ok (r, n)) ↔ Sparse repeatable ps) ∧
      ∀ (r : PublishProperties) (n : ℕ), decode (b ++ rest) = .ok (r, n) →
        ∀ pt, repeatable pt = true → layout.held r pt = group Property.toPropertyType ps pt := by
  obtain ⟨len, lenBytes, data, hbytes, hlen, hdata, rfl⟩ := encRecord_eq_ok h
  have hfold : (decode (lenBytes ++ data ++ rest) : Result (PublishProperties × ℕ)) =
      ps.foldlM list.step ({}, []) >>= fun st => .ok (st.1, (lenBytes ++ data).length) :=
    list.decode_concat {} hdata hbytes hlen rest
  rw [hfold]
  refine ⟨⟨?_, fun hsparse => ?_⟩, ?_⟩
  · rintro ⟨r, n, hr⟩
    obtain ⟨⟨x, dups⟩, hx, -⟩ := bind_eq_ok.mp hr
    exact ((fold_iff ps).mp ⟨x, dups, hx⟩).2
  · obtain ⟨x, dups, hx⟩ := (fold_iff ps).mpr ⟨hall, hsparse⟩
    exact ⟨x, _, bind_eq_ok.mpr ⟨(x, dups), hx, rfl⟩⟩
  · intro r n hr pt hpt
    obtain ⟨⟨x, dups⟩, hx, hr⟩ := bind_eq_ok.mp hr
    obtain ⟨rfl, -⟩ := Prod.mk.inj (Outcome.ok.inj hr)
    rw [fold_collects hx hpt, layout_lawful.held_init, List.nil_append]

/-- The decoder does what it should with a list exactly when the properties that may come more than once
come once exactly when the others do. -/
theorem collectsRepeated_iff {ps : List Property} {b : List UInt8} (h : encRecord ps = .ok b)
    (hall : ∀ q ∈ ps, Allowed q) (rest : List UInt8) :
    CollectsRepeated ps (b ++ rest) ↔ (Sparse repeatable ps ↔ Sparse (fun pt => !repeatable pt) ps) := by
  obtain ⟨haccepts, hcollects⟩ := decode_encRecord h hall rest
  constructor
  · intro hgood
    rw [← haccepts, hgood.accepts]
  · intro hsame
    exact ⟨haccepts.trans hsame, fun r n hr => hcollects r n hr .userProp rfl,
      fun r n hr => hcollects r n hr .subscriptionIdentifier rfl⟩

/-- A text with one user property is read. -/
theorem collectsRepeated_iff_once :
    CollectsRepeated [.payloadFormatIndicator 1, .userProp ("a", "b")]
      ([0x09, 0x01, 0x01, 0x26, 0x00, 0x01, 0x61, 0x00, 0x01, 0x62] ++ []) := by
  refine (collectsRepeated_iff (by decide) ?_ []).mpr (iff_of_true ?_ ?_)
  · simp [Allowed, layout, Property.toPropertyType]
  · intro pt _
    cases pt <;> decide
  · intro pt _
    cases pt <;> decide

/-- Two user properties are refused. -/
theorem two_user_properties_refused :
    ¬ ∀ (ps : List Property) (b : List UInt8), encRecord ps = .ok b → (∀ q ∈ ps, Allowed q) →
      ∀ rest, CollectsRepeated ps (b ++ rest) := by
  intro hall
  have hgood := hall [.userProp ("a", "b"), .userProp ("a", "b")] [0x0e, 0x26, 0x00, 0x01, 0x61, 0x00,
    0x01, 0x62, 0x26, 0x00, 0x01, 0x61, 0x00, 0x01, 0x62] (by decide)
    (by simp [Allowed, layout, Property.toPropertyType]) []
  obtain ⟨r, n, hr⟩ := hgood.accepts.mpr fun pt hpt => by
    cases pt <;> first | exact absurd hpt (by decide) | decide
  have hrefused : (decode ([0x0e, 0x26, 0x00, 0x01, 0x61, 0x00, 0x01, 0x62, 0x26, 0x00, 0x01, 0x61, 0x00,
      0x01, 0x62] ++ []) : Result (PublishProperties × ℕ)).isOk = false := by decide
  rw [hr] at hrefused
  cases hrefused

end PublishProperties

end Mqtr
