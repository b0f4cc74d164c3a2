import Mqtr.Wire.Record

/-! The property sets of the packets as they are written. -/
namespace Mqtr
open Outcome Codec Grouping

/-- What a record holds in a field for at most one property. -/
def heldOpt {α : Type} (varn : α → Property) (o : Option α) : List Property := (o.map varn).toList

/-- A truth value on the wire. -/
def flagByte (val : Bool) : UInt8 := if val then 1 else 0

section Pieces
variable {α β : Type} [Packetize.Encode α] {pt : PropertyType}

theorem concat_singleton (x : Result (List UInt8)) : concat [x] = x := by
  cases x with
  | ok b => simp [concat]
  | err e => rfl
  | panic => rfl

theorem encPropOpt_map {varn : β → Property} {f : β → α}
    (h : ∀ v, encode (varn v) = encProp pt (f v)) (o : Option β) :
    encPropOpt pt (o.map f) = concat ((heldOpt varn o).map encode) := by
  cases o with
  | none => rfl
  | some v => exact (h v).symm.trans (concat_singleton _).symm

theorem encPropOpt_eq {varn : α → Property} (h : ∀ v, encode (varn v) = encProp pt v)
    (o : Option α) : encPropOpt pt o = concat ((heldOpt varn o).map encode) := by
  have hmap := encPropOpt_map h o
  rwa [Option.map_id'] at hmap

/-- A set that is written piece by piece, each piece the properties of one type. -/
theorem encRecord_of_pieces {σ : Type} {L : Layout σ} {x : σ}
    {pieces : List (Result (List UInt8))}
    (h : List.Forall₂ (fun piece pt => piece = concat ((L.held x pt).map encode)) pieces L.order) :
    (do
      let data ← concat pieces
      insertPropertyLen data.length data) = encRecord (L.written x) := by
  rw [encRecord, Layout.written]
  congr 1
  generalize L.order = order at h
  induction h with
  | nil => rfl
  | cons hpiece _ ih =>
    rw [List.flatMap_cons, List.map_append, concat_append, concat, hpiece, ih]

theorem concat_encProp {varn : α → Property} (h : ∀ v, encode (varn v) = encProp pt v)
    (vals : List α) :
    concat (vals.map (encProp pt)) = concat ((vals.map varn).map encode) := by
  rw [List.map_map]
  congr 2
  exact funext fun v => (h v).symm

end Pieces

section Held
variable {α : Type} {varn : α → Property} {o o' : Option α} {q : Property}

theorem mem_heldOpt : q ∈ heldOpt varn o ↔ ∃ v, o = some v ∧ varn v = q := by
  simp [heldOpt]

theorem length_heldOpt_le : (heldOpt varn o).length ≤ 1 := by
  cases o <;> simp [heldOpt]

theorem heldOpt_inj (h : heldOpt varn o = heldOpt varn o')
    (hinj : ∀ {v w}, varn v = varn w → v = w) : o = o' := by
  cases o <;> cases o' <;> simp [heldOpt] at h
  · rfl
  · rw [hinj h]

theorem heldMany_inj {l l' : List α} (h : l.map varn = l'.map varn)
    (hinj : ∀ {v w}, varn v = varn w → v = w) : l = l' :=
  List.map_injective_iff.mpr (fun _ _ e => hinj e) h

end Held

/-- A property that is put behind those of its type is added to what the record holds. -/
theorem Layout.held_push {σ : Type} {L : Layout σ} {x x' : σ} {q : Property}
    (hpush : ∀ pt, L.held x' pt = if pt = q.toPropertyType then L.held x pt ++ [q] else L.held x pt) :
    L.held x' q.toPropertyType = L.held x q.toPropertyType ++ [q] ∧
      ∀ pt, pt ≠ q.toPropertyType → L.held x' pt = L.held x pt := by
  constructor
  · rw [hpush, if_pos rfl]
  · intro pt hpt
    rw [hpush, if_neg hpt]

/-- So is one that is put in a place that was empty. -/
theorem Layout.held_put {σ : Type} {L : Layout σ} {x x' : σ} {q : Property}
    (hroom : L.held x q.toPropertyType = [])
    (hput : ∀ pt, L.held x' pt = if pt = q.toPropertyType then [q] else L.held x pt) :
    L.held x' q.toPropertyType = L.held x q.toPropertyType ++ [q] ∧
      ∀ pt, pt ≠ q.toPropertyType → L.held x' pt = L.held x pt := by
  refine Layout.held_push fun pt => ?_
  rw [hput]
  split_ifs with hpt
  · rw [hpt, hroom, List.nil_append]
  · rfl

/-- A record accepts what it holds if each of its groups is accepted. -/
theorem Layout.accepts_written {σ : Type} {L : Layout σ} {list : PropertyList σ} {x : σ}
    (h : ∀ pt, ∀ q ∈ L.held x pt, list.Accepts q) : ∀ q ∈ L.written x, list.Accepts q := by
  intro q hq
  obtain ⟨pt, -, hq⟩ := List.mem_flatMap.mp hq
  exact h pt q hq

theorem protocolErr_ne_ok {α : Type} (d : String) (a : α) :
    (protocolErr d : Result α) ≠ .ok a := nofun

/-- A property that may not be zero. -/
theorem nonzero_eq_ok {α β : Type} [DecidableEq β] [Zero β] {val : β} {d : String} {a b : α} :
    (if val = 0 then protocolErr d else .ok a : Result α) = .ok b ↔ val ≠ 0 ∧ a = b := by
  by_cases h : val = 0
  · simp [h, protocolErr]
  · simp [h]

theorem flagByte_of_flagValue {name : String} {val : UInt8} {b : Bool}
    (h : flagValue name val = .ok b) : flagByte b = val := by
  unfold flagValue at h
  split at h <;> first | (cases Outcome.ok.inj h; rfl) | exact absurd h (errCode_ne_ok _ _ _ _)

theorem flagByte_inj {a b : Bool} (h : flagByte a = flagByte b) : a = b := by
  cases a <;> cases b <;> first | rfl | exact absurd h (by decide)

namespace ConnAckProperties

instance : Packetize.Encode ConnAckProperties where
  encode self := do
    let data ← concat [
      encPropOpt .sessionExpiryInterval self.sessionExpiryInterval,
      encPropOpt .receiveMaximum self.receiveMaximum,
      encPropOpt .maximumQoS (self.maximumQos.map QoS.toU8),
      encPropOpt .retainAvailable (self.retainAvailable.map flagByte),
      encPropOpt .maximumPacketSize self.maxPacketSize,
      encPropOpt .assignedClientIdentifier self.assignedClientIdentifier,
      encPropOpt .topicAliasMaximum self.topicAliasMax,
      encPropOpt .reasonString self.reasonString,
      encPropOpt .wildcardSubscriptionAvailable (self.wildcardSubscriptionAvailable.map flagByte),
      encPropOpt .subscriptionIdentifierAvailable
        (self.subscriptionIdentifiersAvailable.map flagByte),
      encPropOpt .sharedSubscriptionAvailable (self.sharedSubscriptionAvailable.map flagByte),
      encPropOpt .serverKeepAlive self.serverKeepAlive,
      encPropOpt .responseInformation self.responseInformation,
      encPropOpt .serverReference self.serverReference,
      encPropOpt .authenticationMethod self.authenticationMethod,
      encPropOpt .authenticationData self.authenticationData,
      concat (self.userProperties.map (encProp .userProp))]
    insertPropertyLen data.length data

def layout : Layout ConnAckProperties where
  held x
    | .sessionExpiryInterval => heldOpt .sessionExpiryInterval x.sessionExpiryInterval
    | .receiveMaximum => heldOpt .receiveMaximum x.receiveMaximum
    | .maximumQoS => heldOpt .maximumQoS x.maximumQos
    | .retainAvailable => heldOpt (.retainAvailable ∘ flagByte) x.retainAvailable
    | .maximumPacketSize => heldOpt .maximumPacketSize x.maxPacketSize
    | .assignedClientIdentifier => heldOpt .assignedClientIdentifier x.assignedClientIdentifier
    | .topicAliasMaximum => heldOpt .topicAliasMaximum x.topicAliasMax
    | .reasonString => heldOpt .reasonString x.reasonString
    | .wildcardSubscriptionAvailable =>
      heldOpt (.wildcardSubscriptionAvailable ∘ flagByte) x.wildcardSubscriptionAvailable
    | .subscriptionIdentifierAvailable =>
      heldOpt (.subscriptionIdentifierAvailable ∘ flagByte) x.subscriptionIdentifiersAvailable
    | .sharedSubscriptionAvailable =>
      heldOpt (.sharedSubscriptionAvailable ∘ flagByte) x.sharedSubscriptionAvailable
    | .serverKeepAlive => heldOpt .serverKeepAlive x.serverKeepAlive
    | .responseInformation => heldOpt .responseInformation x.responseInformation
    | .serverReference => heldOpt .serverReference x.serverReference
    | .authenticationMethod => heldOpt .authenticationMethod x.authenticationMethod
    | .authenticationData => heldOpt .authenticationData x.authenticationData
    | .userProp => x.userProperties.map .userProp
    | _ => []
  single := notUserProp
  order := [.sessionExpiryInterval, .receiveMaximum, .maximumQoS, .retainAvailable,
    .maximumPacketSize, .assignedClientIdentifier, .topicAliasMaximum, .reasonString,
    .wildcardSubscriptionAvailable, .subscriptionIdentifierAvailable,
    .sharedSubscriptionAvailable, .serverKeepAlive, .responseInformation, .serverReference,
    .authenticationMethod, .authenticationData, .userProp]

theorem encode_eq (x : ConnAckProperties) : encode x = encRecord (layout.written x) := by
  apply encRecord_of_pieces
  simp only [layout, List.forall₂_cons, List.forall₂_nil_right_iff]
  exact ⟨encPropOpt_eq (fun _ => rfl) _, encPropOpt_eq (fun _ => rfl) _,
    encPropOpt_map (fun _ => rfl) _, encPropOpt_map (fun _ => rfl) _,
    encPropOpt_eq (fun _ => rfl) _, encPropOpt_eq (fun _ => rfl) _,
    encPropOpt_eq (fun _ => rfl) _, encPropOpt_eq (fun _ => rfl) _,
    encPropOpt_map (fun _ => rfl) _, encPropOpt_map (fun _ => rfl) _,
    encPropOpt_map (fun _ => rfl) _, encPropOpt_eq (fun _ => rfl) _,
    encPropOpt_eq (fun _ => rfl) _, encPropOpt_eq (fun _ => rfl) _,
    encPropOpt_eq (fun _ => rfl) _, encPropOpt_eq (fun _ => rfl) _,
    concat_encProp (fun _ => rfl) _, trivial⟩

theorem layout_lawful : layout.Lawful list {} where
  nodup := by decide
  held_init pt := by cases pt <;> rfl
  held_mem {x pt q} h := by
    cases pt with
    | userProp =>
      obtain ⟨v, -, rfl⟩ := List.mem_map.mp h
      exact ⟨rfl, by decide, nofun⟩
    | _ =>
      first
      | exact absurd h (List.not_mem_nil)
      | obtain ⟨v, -, rfl⟩ := mem_heldOpt.mp h
        exact ⟨rfl, by decide, nofun⟩
  held_single x pt h := by
    cases pt with
    | userProp => exact absurd h (by decide)
    | _ => first | exact length_heldOpt_le | exact Nat.zero_le _
  held_ext {x y} h := by
    cases x
    cases y
    simp only [mk.injEq]
    exact ⟨heldOpt_inj (h .sessionExpiryInterval) Property.sessionExpiryInterval.inj,
      heldOpt_inj (h .receiveMaximum) Property.receiveMaximum.inj,
      heldOpt_inj (h .maximumQoS) Property.maximumQoS.inj,
      heldOpt_inj (h .retainAvailable) fun e => flagByte_inj (Property.retainAvailable.inj e),
      heldOpt_inj (h .maximumPacketSize) Property.maximumPacketSize.inj,
      heldOpt_inj (h .assignedClientIdentifier) Property.assignedClientIdentifier.inj,
      heldOpt_inj (h .topicAliasMaximum) Property.topicAliasMaximum.inj,
      heldOpt_inj (h .reasonString) Property.reasonString.inj,
      heldOpt_inj (h .wildcardSubscriptionAvailable) fun e =>
        flagByte_inj (Property.wildcardSubscriptionAvailable.inj e),
      heldOpt_inj (h .subscriptionIdentifierAvailable) fun e =>
        flagByte_inj (Property.subscriptionIdentifierAvailable.inj e),
      heldOpt_inj (h .sharedSubscriptionAvailable) fun e =>
        flagByte_inj (Property.sharedSubscriptionAvailable.inj e),
      heldOpt_inj (h .serverKeepAlive) Property.serverKeepAlive.inj,
      heldOpt_inj (h .responseInformation) Property.responseInformation.inj,
      heldOpt_inj (h .serverReference) Property.serverReference.inj,
      heldOpt_inj (h .authenticationMethod) Property.authenticationMethod.inj,
      heldOpt_inj (h .authenticationData) Property.authenticationData.inj,
      heldMany_inj (h .userProp) Property.userProp.inj⟩
  take_any {q x x'} h y := by
    cases q with
    | receiveMaximum val | maximumPacketSize val =>
      exact ⟨_, nonzero_eq_ok.mpr ⟨(nonzero_eq_ok.mp h).1, rfl⟩⟩
    | retainAvailable val | wildcardSubscriptionAvailable val
    | subscriptionIdentifierAvailable val | sharedSubscriptionAvailable val =>
      obtain ⟨b, hb, _⟩ := bind_eq_ok.mp h
      exact ⟨_, bind_eq_ok.mpr ⟨b, hb, rfl⟩⟩
    | _ => first | exact ⟨_, rfl⟩ | exact absurd h (protocolErr_ne_ok _ _)
  take_held {x x' q} h _ hroom := by
    cases q with
    | receiveMaximum val | maximumPacketSize val =>
      obtain ⟨-, rfl⟩ := nonzero_eq_ok.mp h
      exact Layout.held_put (hroom rfl) fun pt => by cases pt <;> rfl
    | retainAvailable val | wildcardSubscriptionAvailable val
    | subscriptionIdentifierAvailable val | sharedSubscriptionAvailable val =>
      obtain ⟨b, hb, h⟩ := bind_eq_ok.mp h
      obtain rfl := Outcome.ok.inj h
      obtain rfl := flagByte_of_flagValue hb
      exact Layout.held_put (hroom rfl) fun pt => by cases pt <;> rfl
    | userProp val =>
      obtain rfl := Outcome.ok.inj h
      exact Layout.held_push fun pt => by cases pt <;> first | rfl | exact List.map_append
    | _ =>
      first
      | obtain rfl := Outcome.ok.inj h
        exact Layout.held_put (hroom rfl) fun pt => by cases pt <;> rfl
      | exact absurd h (protocolErr_ne_ok _ _)

instance : PropertySet ConnAckProperties where
  written := layout.written
  Accepted := layout.Accepted list
  decode_written hacc hdata hbytes := layout_lawful.decode_written hacc hdata hbytes

instance : PropertySet.Canonical ConnAckProperties where
  written_decode :=
    layout_lawful.written_decode (fun _ h => h) fun ⟨_, _, h⟩ => protocolErr_ne_ok _ _ h

instance : PropertySet.Encodes ConnAckProperties := ⟨encode_eq⟩

theorem accepted {x : ConnAckProperties} (hreceive : x.receiveMaximum ≠ some 0)
    (hsize : x.maxPacketSize ≠ some 0) : PropertySet.Accepted x := by
  refine ⟨Layout.accepts_written fun pt q hq => ?_, layout_lawful.sparse_written x⟩
  cases pt with
  | receiveMaximum =>
    obtain ⟨v, hv, rfl⟩ := mem_heldOpt.mp hq
    exact ⟨{}, _, nonzero_eq_ok.mpr ⟨fun h0 => hreceive (by rw [hv, h0]), rfl⟩⟩
  | maximumPacketSize =>
    obtain ⟨v, hv, rfl⟩ := mem_heldOpt.mp hq
    exact ⟨{}, _, nonzero_eq_ok.mpr ⟨fun h0 => hsize (by rw [hv, h0]), rfl⟩⟩
  | retainAvailable | wildcardSubscriptionAvailable | subscriptionIdentifierAvailable
  | sharedSubscriptionAvailable =>
    obtain ⟨v, -, rfl⟩ := mem_heldOpt.mp hq
    cases v <;> exact ⟨{}, _, rfl⟩
  | userProp =>
    obtain ⟨v, -, rfl⟩ := List.mem_map.mp hq
    exact ⟨{}, _, rfl⟩
  | _ =>
    first
    | obtain ⟨v, -, rfl⟩ := mem_heldOpt.mp hq
      exact ⟨{}, _, rfl⟩
    | exact absurd hq List.not_mem_nil

end ConnAckProperties

namespace ReasonProperties

/-- The encoder of the three acknowledgements. -/
def encode (self : ReasonProperties) : Result (List UInt8) := do
  let data ← concat [
    encPropOpt .reasonString self.reasonString,
    concat (self.userProperties.map (encProp .userProp))]
  insertPropertyLen data.length data

def layout : Layout ReasonProperties where
  held x
    | .reasonString => heldOpt .reasonString x.reasonString
    | .userProp => x.userProperties.map .userProp
    | _ => []
  single := notUserProp
  order := [.reasonString, .userProp]

theorem encode_eq (x : ReasonProperties) : x.encode = encRecord (layout.written x) := by
  apply encRecord_of_pieces
  simp only [layout, List.forall₂_cons, List.forall₂_nil_right_iff]
  exact ⟨encPropOpt_eq (fun _ => rfl) _, concat_encProp (fun _ => rfl) _, trivial⟩

theorem layout_lawful (repeated bad : PropertyType → String) :
    layout.Lawful (ReasonProperties.list repeated bad) ⟨none, []⟩ where
  nodup := by decide
  held_init pt := by cases pt <;> rfl
  held_mem {x pt q} h := by
    cases pt with
    | reasonString =>
      obtain ⟨v, -, rfl⟩ := mem_heldOpt.mp h
      exact ⟨rfl, by decide, nofun⟩
    | userProp =>
      obtain ⟨v, -, rfl⟩ := List.mem_map.mp h
      exact ⟨rfl, by decide, nofun⟩
    | _ => exact absurd h List.not_mem_nil
  held_single x pt h := by
    cases pt with
    | reasonString => exact length_heldOpt_le
    | userProp => exact absurd h (by decide)
    | _ => exact Nat.zero_le _
  held_ext {x y} h := by
    cases x
    cases y
    simp only [mk.injEq]
    exact ⟨heldOpt_inj (h .reasonString) Property.reasonString.inj,
      heldMany_inj (h .userProp) Property.userProp.inj⟩
  take_any {q x x'} h y := by
    cases q with
    | reasonString val | userProp val => exact ⟨_, rfl⟩
    | _ => exact absurd h (protocolErr_ne_ok _ _)
  take_held {x x' q} h _ hroom := by
    cases q with
    | reasonString val =>
      obtain rfl := Outcome.ok.inj h
      exact Layout.held_put (hroom rfl) fun pt => by cases pt <;> rfl
    | userProp val =>
      obtain rfl := Outcome.ok.inj h
      exact Layout.held_push fun pt => by cases pt <;> first | rfl | exact List.map_append
    | _ => exact absurd h (protocolErr_ne_ok _ _)

theorem written_eq_nil_iff {x : ReasonProperties} : layout.written x = [] ↔ x = {} :=
  (layout_lawful (fun _ => "") (fun _ => "")).written_eq_nil_iff

theorem not_accepts_format (repeated bad : PropertyType → String) :
    ¬ (ReasonProperties.list repeated bad).Accepts (.payloadFormatIndicator 0) :=
  fun ⟨_, _, h⟩ => protocolErr_ne_ok _ _ h

theorem accepted (repeated bad : PropertyType → String) (x : ReasonProperties) :
    layout.Accepted (ReasonProperties.list repeated bad) x := by
  refine ⟨Layout.accepts_written fun pt q hq => ?_, (layout_lawful repeated bad).sparse_written x⟩
  cases pt with
  | reasonString =>
    obtain ⟨v, -, rfl⟩ := mem_heldOpt.mp hq
    exact ⟨⟨none, []⟩, _, rfl⟩
  | userProp =>
    obtain ⟨v, -, rfl⟩ := List.mem_map.mp hq
    exact ⟨⟨none, []⟩, _, rfl⟩
  | _ => exact absurd hq List.not_mem_nil

end ReasonProperties

section Acknowledgements
open ReasonProperties

instance : Packetize.Encode PubProperties := ⟨ReasonProperties.encode⟩

instance : PropertySet PubProperties where
  written := layout.written
  Accepted := layout.Accepted PubProperties.list
  decode_written hacc hdata hbytes := (layout_lawful _ _).decode_written hacc hdata hbytes

instance : PropertySet.Canonical PubProperties where
  written_decode := (layout_lawful _ _).written_decode (fun _ h => h) (not_accepts_format _ _)

instance : PropertySet.Encodes PubProperties := ⟨ReasonProperties.encode_eq⟩

instance : Packetize.Encode SubAckProperties := ⟨ReasonProperties.encode⟩

instance : PropertySet SubAckProperties where
  written := layout.written
  Accepted := layout.Accepted SubAckProperties.list
  decode_written hacc hdata hbytes := (layout_lawful _ _).decode_written hacc hdata hbytes

instance : PropertySet.Canonical SubAckProperties where
  written_decode := (layout_lawful _ _).written_decode (fun _ h => h) (not_accepts_format _ _)

instance : PropertySet.Encodes SubAckProperties := ⟨ReasonProperties.encode_eq⟩

instance : Packetize.Encode UnsubAckProperties := ⟨ReasonProperties.encode⟩

end Acknowledgements

namespace SubscribeProperties

instance : Packetize.Encode SubscribeProperties where
  encode self := do
    let data ← concat [
      encPropOpt .subscriptionIdentifier self.subscriptionId,
      concat (self.userProperties.map (encProp .userProp))]
    insertPropertyLen data.length data

def layout : Layout SubscribeProperties where
  held x
    | .subscriptionIdentifier => heldOpt .subscriptionIdentifier x.subscriptionId
    | .userProp => x.userProperties.map .userProp
    | _ => []
  single := notUserProp
  order := [.subscriptionIdentifier, .userProp]

theorem encode_eq (x : SubscribeProperties) : encode x = encRecord (layout.written x) := by
  apply encRecord_of_pieces
  simp only [layout, List.forall₂_cons, List.forall₂_nil_right_iff]
  exact ⟨encPropOpt_eq (fun _ => rfl) _, concat_encProp (fun _ => rfl) _, trivial⟩

theorem layout_lawful : layout.Lawful list {} where
  nodup := by decide
  held_init pt := by cases pt <;> rfl
  held_mem {x pt q} h := by
    cases pt with
    | subscriptionIdentifier =>
      obtain ⟨v, -, rfl⟩ := mem_heldOpt.mp h
      exact ⟨rfl, by decide, nofun⟩
    | userProp =>
      obtain ⟨v, -, rfl⟩ := List.mem_map.mp h
      exact ⟨rfl, by decide, nofun⟩
    | _ => exact absurd h List.not_mem_nil
  held_single x pt h := by
    cases pt with
    | subscriptionIdentifier => exact length_heldOpt_le
    | userProp => exact absurd h (by decide)
    | _ => exact Nat.zero_le _
  held_ext {x y} h := by
    cases x
    cases y
    simp only [mk.injEq]
    exact ⟨heldOpt_inj (h .subscriptionIdentifier) Property.subscriptionIdentifier.inj,
      heldMany_inj (h .userProp) Property.userProp.inj⟩
  take_any {q x x'} h y := by
    cases q with
    | subscriptionIdentifier val =>
      exact ⟨_, nonzero_eq_ok.mpr ⟨(nonzero_eq_ok.mp h).1, rfl⟩⟩
    | userProp val => exact ⟨_, rfl⟩
    | _ => exact absurd h (protocolErr_ne_ok _ _)
  take_held {x x' q} h _ hroom := by
    cases q with
    | subscriptionIdentifier val =>
      obtain ⟨-, rfl⟩ := nonzero_eq_ok.mp h
      exact Layout.held_put (hroom rfl) fun pt => by cases pt <;> rfl
    | userProp val =>
      obtain rfl := Outcome.ok.inj h
      exact Layout.held_push fun pt => by cases pt <;> first | rfl | exact List.map_append
    | _ => exact absurd h (protocolErr_ne_ok _ _)

instance : PropertySet SubscribeProperties where
  written := layout.written
  Accepted := layout.Accepted list
  decode_written hacc hdata hbytes := layout_lawful.decode_written hacc hdata hbytes

instance : PropertySet.Canonical SubscribeProperties where
  written_decode :=
    layout_lawful.written_decode (fun _ h => h) fun ⟨_, _, h⟩ => protocolErr_ne_ok _ _ h

instance : PropertySet.Encodes SubscribeProperties := ⟨encode_eq⟩

theorem accepted {x : SubscribeProperties} (hid : x.subscriptionId ≠ some ⟨0⟩) :
    PropertySet.Accepted x := by
  refine ⟨Layout.accepts_written fun pt q hq => ?_, layout_lawful.sparse_written x⟩
  cases pt with
  | subscriptionIdentifier =>
    obtain ⟨⟨v⟩, hv, rfl⟩ := mem_heldOpt.mp hq
    exact ⟨{}, _, nonzero_eq_ok.mpr ⟨fun h0 => hid (by rw [hv]; congr), rfl⟩⟩
  | userProp =>
    obtain ⟨v, -, rfl⟩ := List.mem_map.mp hq
    exact ⟨{}, _, rfl⟩
  | _ => exact absurd hq List.not_mem_nil

end SubscribeProperties

namespace UnSubscribeProperties

instance : Packetize.Encode UnSubscribeProperties where
  encode self := do
    let data ← concat (self.userProperties.map (encProp .userProp))
    insertPropertyLen data.length data

def layout : Layout UnSubscribeProperties where
  held x
    | .userProp => x.userProperties.map .userProp
    | _ => []
  single := notUserProp
  order := [.userProp]

theorem encode_eq (x : UnSubscribeProperties) : encode x = encRecord (layout.written x) := by
  have hpieces : encRecord (layout.written x) = (do
      let data ← concat [concat (x.userProperties.map (encProp .userProp))]
      insertPropertyLen data.length data) := by
    symm
    apply encRecord_of_pieces
    simp only [layout, List.forall₂_cons, List.forall₂_nil_right_iff]
    exact ⟨concat_encProp (fun _ => rfl) _, trivial⟩
  rw [hpieces, concat_singleton]
  rfl

theorem layout_lawful : layout.Lawful list {} where
  nodup := by decide
  held_init pt := by cases pt <;> rfl
  held_mem {x pt q} h := by
    cases pt with
    | userProp =>
      obtain ⟨v, -, rfl⟩ := List.mem_map.mp h
      exact ⟨rfl, by decide, nofun⟩
    | _ => exact absurd h List.not_mem_nil
  held_single x pt h := by
    cases pt with
    | userProp => exact absurd h (by decide)
    | _ => exact Nat.zero_le _
  held_ext {x y} h := by
    cases x
    cases y
    simp only [mk.injEq]
    exact heldMany_inj (h .userProp) Property.userProp.inj
  take_any {q x x'} h y := by
    cases q with
    | userProp val => exact ⟨_, rfl⟩
    | _ => exact absurd h (protocolErr_ne_ok _ _)
  take_held {x x' q} h _ hroom := by
    cases q with
    | userProp val =>
      obtain rfl := Outcome.ok.inj h
      exact Layout.held_push fun pt => by cases pt <;> first | rfl | exact List.map_append
    | _ => exact absurd h (protocolErr_ne_ok _ _)

instance : PropertySet UnSubscribeProperties where
  written := layout.written
  Accepted := layout.Accepted list
  decode_written hacc hdata hbytes := layout_lawful.decode_written hacc hdata hbytes

instance : PropertySet.Canonical UnSubscribeProperties where
  written_decode :=
    layout_lawful.written_decode (fun _ h => h) fun ⟨_, _, h⟩ => protocolErr_ne_ok _ _ h

instance : PropertySet.Encodes UnSubscribeProperties := ⟨encode_eq⟩

theorem accepted (x : UnSubscribeProperties) : PropertySet.Accepted x := by
  refine ⟨Layout.accepts_written fun pt q hq => ?_, layout_lawful.sparse_written x⟩
  cases pt with
  | userProp =>
    obtain ⟨v, -, rfl⟩ := List.mem_map.mp hq
    exact ⟨{}, _, rfl⟩
  | _ => exact absurd hq List.not_mem_nil

end UnSubscribeProperties

namespace DisconnProperties

instance : Packetize.Encode DisconnProperties where
  encode self := do
    let data ← concat [
      encPropOpt .sessionExpiryInterval self.sessionExpiryInterval,
      encPropOpt .reasonString self.reasonString,
      encPropOpt .serverReference self.serverReference,
      concat (self.userProperties.map (encProp .userProp))]
    insertPropertyLen data.length data

def layout : Layout DisconnProperties where
  held x
    | .sessionExpiryInterval => heldOpt .sessionExpiryInterval x.sessionExpiryInterval
    | .reasonString => heldOpt .reasonString x.reasonString
    | .serverReference => heldOpt .serverReference x.serverReference
    | .userProp => x.userProperties.map .userProp
    | _ => []
  single := notUserProp
  order := [.sessionExpiryInterval, .reasonString, .serverReference, .userProp]

theorem encode_eq (x : DisconnProperties) : encode x = encRecord (layout.written x) := by
  apply encRecord_of_pieces
  simp only [layout, List.forall₂_cons, List.forall₂_nil_right_iff]
  exact ⟨encPropOpt_eq (fun _ => rfl) _, encPropOpt_eq (fun _ => rfl) _,
    encPropOpt_eq (fun _ => rfl) _, concat_encProp (fun _ => rfl) _, trivial⟩

theorem layout_lawful : layout.Lawful list {} where
  nodup := by decide
  held_init pt := by cases pt <;> rfl
  held_mem {x pt q} h := by
    cases pt with
    | sessionExpiryInterval | reasonString | serverReference =>
      obtain ⟨v, -, rfl⟩ := mem_heldOpt.mp h
      exact ⟨rfl, by decide, nofun⟩
    | userProp =>
      obtain ⟨v, -, rfl⟩ := List.mem_map.mp h
      exact ⟨rfl, by decide, nofun⟩
    | _ => exact absurd h List.not_mem_nil
  held_single x pt h := by
    cases pt with
    | sessionExpiryInterval | reasonString | serverReference => exact length_heldOpt_le
    | userProp => exact absurd h (by decide)
    | _ => exact Nat.zero_le _
  held_ext {x y} h := by
    cases x
    cases y
    simp only [mk.injEq]
    exact ⟨heldOpt_inj (h .sessionExpiryInterval) Property.sessionExpiryInterval.inj,
      heldOpt_inj (h .reasonString) Property.reasonString.inj,
      heldMany_inj (h .userProp) Property.userProp.inj,
      heldOpt_inj (h .serverReference) Property.serverReference.inj⟩
  take_any {q x x'} h y := by
    cases q with
    | sessionExpiryInterval val | reasonString val | serverReference val | userProp val =>
      exact ⟨_, rfl⟩
    | _ => exact absurd h (protocolErr_ne_ok _ _)
  take_held {x x' q} h _ hroom := by
    cases q with
    | sessionExpiryInterval val | reasonString val | serverReference val =>
      obtain rfl := Outcome.ok.inj h
      exact Layout.held_put (hroom rfl) fun pt => by cases pt <;> rfl
    | userProp val =>
      obtain rfl := Outcome.ok.inj h
      exact Layout.held_push fun pt => by cases pt <;> first | rfl | exact List.map_append
    | _ => exact absurd h (protocolErr_ne_ok _ _)

instance : PropertySet DisconnProperties where
  written := layout.written
  Accepted := layout.Accepted list
  decode_written hacc hdata hbytes := layout_lawful.decode_written hacc hdata hbytes

instance : PropertySet.Canonical DisconnProperties where
  written_decode :=
    layout_lawful.written_decode (fun _ h => h) fun ⟨_, _, h⟩ => protocolErr_ne_ok _ _ h

instance : PropertySet.Encodes DisconnProperties := ⟨encode_eq⟩

theorem accepted (x : DisconnProperties) : PropertySet.Accepted x := by
  refine ⟨Layout.accepts_written fun pt q hq => ?_, layout_lawful.sparse_written x⟩
  cases pt with
  | sessionExpiryInterval | reasonString | serverReference =>
    obtain ⟨v, -, rfl⟩ := mem_heldOpt.mp hq
    exact ⟨{}, _, rfl⟩
  | userProp =>
    obtain ⟨v, -, rfl⟩ := List.mem_map.mp hq
    exact ⟨{}, _, rfl⟩
  | _ => exact absurd hq List.not_mem_nil

end DisconnProperties

namespace AuthProperties

instance : Packetize.Encode AuthProperties where
  encode self := do
    let data ← concat [
      encProp .authenticationMethod self.authenticationMethod,
      encProp .authenticationData self.authenticationData,
      encPropOpt .reasonString self.reasonString,
      concat (self.userProperties.map (encProp .userProp))]
    insertPropertyLen data.length data

/-- The locals of the decoder when it has read a whole set. -/
def toPartial (self : AuthProperties) : Partial :=
  ⟨some self.authenticationMethod, some self.authenticationData, self.reasonString,
    self.userProperties⟩

def layout : Layout Partial where
  held x
    | .authenticationMethod => heldOpt .authenticationMethod x.authenticationMethod
    | .authenticationData => heldOpt .authenticationData x.authenticationData
    | .reasonString => heldOpt .reasonString x.reasonString
    | .userProp => x.userProperties.map .userProp
    | _ => []
  single := notUserProp
  order := [.authenticationMethod, .authenticationData, .reasonString, .userProp]

theorem encode_eq (x : AuthProperties) :
    encode x = encRecord (layout.written x.toPartial) := by
  apply encRecord_of_pieces
  simp only [layout, List.forall₂_cons, List.forall₂_nil_right_iff]
  exact ⟨(concat_singleton _).symm, (concat_singleton _).symm, encPropOpt_eq (fun _ => rfl) _,
    concat_encProp (fun _ => rfl) _, trivial⟩

theorem layout_lawful : layout.Lawful list {} where
  nodup := by decide
  held_init pt := by cases pt <;> rfl
  held_mem {x pt q} h := by
    cases pt with
    | authenticationMethod | authenticationData | reasonString =>
      obtain ⟨v, -, rfl⟩ := mem_heldOpt.mp h
      exact ⟨rfl, by decide, nofun⟩
    | userProp =>
      obtain ⟨v, -, rfl⟩ := List.mem_map.mp h
      exact ⟨rfl, by decide, nofun⟩
    | _ => exact absurd h List.not_mem_nil
  held_single x pt h := by
    cases pt with
    | authenticationMethod | authenticationData | reasonString => exact length_heldOpt_le
    | userProp => exact absurd h (by decide)
    | _ => exact Nat.zero_le _
  held_ext {x y} h := by
    cases x
    cases y
    simp only [Partial.mk.injEq]
    exact ⟨heldOpt_inj (h .authenticationMethod) Property.authenticationMethod.inj,
      heldOpt_inj (h .authenticationData) Property.authenticationData.inj,
      heldOpt_inj (h .reasonString) Property.reasonString.inj,
      heldMany_inj (h .userProp) Property.userProp.inj⟩
  take_any {q x x'} h y := by
    cases q with
    | authenticationMethod val | authenticationData val | reasonString val | userProp val =>
      exact ⟨_, rfl⟩
    | _ => exact absurd h (protocolErr_ne_ok _ _)
  take_held {x x' q} h _ hroom := by
    cases q with
    | authenticationMethod val | authenticationData val | reasonString val =>
      obtain rfl := Outcome.ok.inj h
      exact Layout.held_put (hroom rfl) fun pt => by cases pt <;> rfl
    | userProp val =>
      obtain rfl := Outcome.ok.inj h
      exact Layout.held_push fun pt => by cases pt <;> first | rfl | exact List.map_append
    | _ => exact absurd h (protocolErr_ne_ok _ _)

theorem decode_eq_ok {s : List UInt8} {x : AuthProperties} {n : ℕ} :
    decode s = .ok (x, n) ↔ list.decode {} s = .ok (x.toPartial, n) := by
  constructor
  · intro h
    obtain ⟨⟨⟨method, data, reason, user⟩, k⟩, hlist, h⟩ := bind_eq_ok.mp h
    cases method with
    | none => exact absurd h (protocolErr_ne_ok _ _)
    | some method =>
      cases data with
      | none => exact absurd h (protocolErr_ne_ok _ _)
      | some data =>
        obtain ⟨rfl, rfl⟩ := Prod.mk.inj (Outcome.ok.inj h)
        exact hlist
  · intro h
    show (list.decode {} s >>= _) = _
    rw [h]
    rfl

instance : PropertySet AuthProperties where
  written x := layout.written x.toPartial
  Accepted x := layout.Accepted list x.toPartial
  decode_written hacc hdata hbytes hlen rest :=
    decode_eq_ok.mpr (layout_lawful.decode_written hacc hdata hbytes hlen rest)

instance : PropertySet.Canonical AuthProperties where
  written_decode h :=
    layout_lawful.written_decode (fun _ h => h) (fun ⟨_, _, h⟩ => protocolErr_ne_ok _ _ h)
      (decode_eq_ok.mp h)

instance : PropertySet.Encodes AuthProperties := ⟨encode_eq⟩

theorem layout_accepted (x : Partial) : layout.Accepted list x := by
  refine ⟨Layout.accepts_written fun pt q hq => ?_, layout_lawful.sparse_written x⟩
  cases pt with
  | authenticationMethod | authenticationData | reasonString =>
    obtain ⟨v, -, rfl⟩ := mem_heldOpt.mp hq
    exact ⟨{}, _, rfl⟩
  | userProp =>
    obtain ⟨v, -, rfl⟩ := List.mem_map.mp hq
    exact ⟨{}, _, rfl⟩
  | _ => exact absurd hq List.not_mem_nil

theorem accepted (x : AuthProperties) : PropertySet.Accepted x := layout_accepted x.toPartial

theorem written_ne_nil (x : AuthProperties) : PropertySet.written x ≠ [] := by
  intro h
  have hinit := layout_lawful.written_eq_nil_iff.mp h
  exact absurd (congrArg Partial.authenticationMethod hinit) nofun

end AuthProperties
end Mqtr
