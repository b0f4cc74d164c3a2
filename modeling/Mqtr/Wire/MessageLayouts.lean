import Mqtr.Wire.Layouts

/-! The property sets of CONNECT, its will message and PUBLISH as they are written. -/
namespace Mqtr
open Outcome Codec Grouping

theorem PayloadFormat.tryFrom_eq_ok {val : UInt8} {format : PayloadFormat}
    (h : PayloadFormat.tryFrom val = .ok format) :
    val = 0 ∧ format = .binary ∨ val = 1 ∧ format = .utf8 := by
  unfold PayloadFormat.tryFrom at h
  split at h
  · exact .inl ⟨rfl, (Outcome.ok.inj h).symm⟩
  · exact .inr ⟨rfl, (Outcome.ok.inj h).symm⟩
  · exact absurd h (errCode_ne_ok _ _ _ _)

def PayloadFormat.toU8 : PayloadFormat → UInt8
  | .binary => 0
  | .utf8 => 1

/-- The format of a payload is written only if it is text. -/
def encFormat (format : PayloadFormat) : Result (List UInt8) :=
  if format.isUtf8 then encProp .payloadFormatIndicator PayloadFormat.utf8.toU8 else .ok []

def heldFormat : PayloadFormat → List Property
  | .binary => []
  | .utf8 => [.payloadFormatIndicator 1]

theorem encFormat_eq (format : PayloadFormat) :
    encFormat format = concat ((heldFormat format).map encode) := by
  cases format with
  | binary => rfl
  | utf8 => exact (concat_singleton _).symm

theorem mem_heldFormat {format : PayloadFormat} {q : Property} (h : q ∈ heldFormat format) :
    q = .payloadFormatIndicator 1 := by
  cases format with
  | binary => exact absurd h List.not_mem_nil
  | utf8 => exact List.mem_singleton.mp h

theorem length_heldFormat_le (format : PayloadFormat) : (heldFormat format).length ≤ 1 := by
  cases format <;> decide

theorem heldFormat_inj {a b : PayloadFormat} (h : heldFormat a = heldFormat b) : a = b := by
  cases a <;> cases b <;> first | rfl | exact absurd h nofun

namespace ConnectProperties

instance : Packetize.Encode ConnectProperties where
  encode self := do
    let data ← concat [
      encPropOpt .sessionExpiryInterval self.sessionExpiryInterval,
      encPropOpt .receiveMaximum self.receiveMaximum,
      encPropOpt .maximumPacketSize self.maxPacketSize,
      encPropOpt .topicAliasMaximum self.topicAliasMax,
      encPropOpt .requestResponseInformation (self.requestResponseInfo.map flagByte),
      encPropOpt .requestProblemInformation (self.requestProblemInfo.map flagByte),
      encPropOpt .authenticationMethod self.authenticationMethod,
      -- the method once more, in the place of the data
      encPropOpt .authenticationData self.authenticationMethod,
      concat (self.userProperties.map (encProp .userProp))]
    insertPropertyLen data.length data

def layout : Layout ConnectProperties where
  held x
    | .sessionExpiryInterval => heldOpt .sessionExpiryInterval x.sessionExpiryInterval
    | .receiveMaximum => heldOpt .receiveMaximum x.receiveMaximum
    | .maximumPacketSize => heldOpt .maximumPacketSize x.maxPacketSize
    | .topicAliasMaximum => heldOpt .topicAliasMaximum x.topicAliasMax
    | .requestResponseInformation =>
      heldOpt (.requestResponseInformation ∘ flagByte) x.requestResponseInfo
    | .requestProblemInformation =>
      heldOpt (.requestProblemInformation ∘ flagByte) x.requestProblemInfo
    | .authenticationMethod => heldOpt .authenticationMethod x.authenticationMethod
    | .authenticationData => heldOpt .authenticationData x.authenticationData
    | .userProp => x.userProperties.map .userProp
    | _ => []
  single := notUserProp
  order := [.sessionExpiryInterval, .receiveMaximum, .maximumPacketSize, .topicAliasMaximum,
    .requestResponseInformation, .requestProblemInformation, .authenticationMethod,
    .authenticationData, .userProp]

/-- The set that is on the wire after `x` has been written. -/
def sent (x : ConnectProperties) : ConnectProperties :=
  { x with authenticationData := x.authenticationMethod.map asBytes }

/-- A text is written like its bytes. -/
theorem encode_asBytes {s : String} {b : List UInt8} (h : encode s = .ok b) :
    encode (asBytes s) = .ok b := by
  obtain ⟨-, hlen, rfl⟩ := String.encode_eq_ok h
  simp only [encode]
  rw [if_neg (by omega)]

/-- What is written in the place of the data are the bytes of the method. -/
theorem encPropOpt_method {method : Option String}
    (h : ∃ b, encPropOpt .authenticationMethod method = .ok b) :
    encPropOpt .authenticationData method =
      encPropOpt .authenticationData (method.map asBytes) := by
  cases method with
  | none => rfl
  | some m =>
    obtain ⟨b, hb⟩ := h
    obtain ⟨byte, bytes, -, hbytes, -⟩ := encProp_eq_ok hb
    show encProp _ m = encProp _ (asBytes m)
    rw [encProp, encProp, hbytes, encode_asBytes hbytes]

theorem encode_eq_ok {x : ConnectProperties} {b : List UInt8} (h : encode x = .ok b) :
    encRecord (layout.written x.sent) = .ok b := by
  have hmethod : ∃ b, encPropOpt .authenticationMethod x.authenticationMethod = .ok b := by
    obtain ⟨data, hdata, -⟩ := bind_eq_ok.mp h
    exact ok_of_mem_concat hdata _ (by simp)
  rw [← h, ← encRecord_of_pieces]
  · show (concat _ >>= _) = (concat _ >>= _)
    rw [encPropOpt_method hmethod]
  · simp only [layout, sent, List.forall₂_cons, List.forall₂_nil_right_iff]
    exact ⟨encPropOpt_eq (fun _ => rfl) _, encPropOpt_eq (fun _ => rfl) _,
      encPropOpt_eq (fun _ => rfl) _, encPropOpt_eq (fun _ => rfl) _,
      encPropOpt_map (fun _ => rfl) _, encPropOpt_map (fun _ => rfl) _,
      encPropOpt_eq (fun _ => rfl) _, encPropOpt_eq (fun _ => rfl) _,
      concat_encProp (fun _ => rfl) _, trivial⟩

theorem layout_lawful : layout.Lawful list {} where
  nodup := by decide
  held_init pt := by cases pt <;> rfl
  held_mem {x pt q} h := by
    cases pt with
    | userProp =>
      obtain ⟨v, -, rfl⟩ := List.mem_map.mp h
      exact ⟨rfl, by decide, nofun⟩
    | _ =>
      first
      | obtain ⟨v, -, rfl⟩ := mem_heldOpt.mp h
        exact ⟨rfl, by decide, nofun⟩
      | exact absurd h List.not_mem_nil
  held_single x pt h := by
    cases pt with
    | userProp => exact absurd h (by decide)
    | _ => first | exact length_heldOpt_le | exact Nat.zero_le _
  held_ext {x y} h := by
    cases x
    cases y
    simp only [mk.injEq]
    exact ⟨heldOpt_inj (h .sessionExpiryInterval) Property.sessionExpiryInterval.inj,
      heldOpt_inj (h .receiveMaximum) Property.receiveMaximum.inj,
      heldOpt_inj (h .maximumPacketSize) Property.maximumPacketSize.inj,
      heldOpt_inj (h .topicAliasMaximum) Property.topicAliasMaximum.inj,
      heldOpt_inj (h .requestResponseInformation) fun e =>
        flagByte_inj (Property.requestResponseInformation.inj e),
      heldOpt_inj (h .requestProblemInformation) fun e =>
        flagByte_inj (Property.requestProblemInformation.inj e),
      heldOpt_inj (h .authenticationMethod) Property.authenticationMethod.inj,
      heldOpt_inj (h .authenticationData) Property.authenticationData.inj,
      heldMany_inj (h .userProp) Property.userProp.inj⟩
  take_any {q x x'} h y := by
    cases q with
    | receiveMaximum val | maximumPacketSize val =>
      exact ⟨_, nonzero_eq_ok.mpr ⟨(nonzero_eq_ok.mp h).1, rfl⟩⟩
    | requestResponseInformation val | requestProblemInformation val =>
      obtain ⟨b, hb, _⟩ := bind_eq_ok.mp h
      exact ⟨_, bind_eq_ok.mpr ⟨b, hb, rfl⟩⟩
    | _ => first | exact ⟨_, rfl⟩ | exact absurd h (protocolErr_ne_ok _ _)
  take_held {x x' q} h _ hroom := by
    cases q with
    | receiveMaximum val | maximumPacketSize val =>
      obtain ⟨-, rfl⟩ := nonzero_eq_ok.mp h
      exact Layout.held_put (hroom rfl) fun pt => by cases pt <;> rfl
    | requestResponseInformation val | requestProblemInformation val =>
      obtain ⟨b, hb, h⟩ := bind_eq_ok.mp h
      obtain rfl := Outcome.ok.inj h
      obtain rfl := flagByte_of_flagValue hb
      exact Layout.held_put (hroom rfl) fun pt => by cases pt <;> rfl
    | userProp val =>
      obtain rfl := Outcome.ok.inj h
      exact Layout.held_push fun pt => by cases pt <;> first | rfl | exact List.map_append
    | _ =>
      first
      | obtain rfl := Outcome.ok.inj h
        exact Layout.held_put (hroom rfl) fun pt => by cases pt <;> rfl
      | exact absurd h (protocolErr_ne_ok _ _)

instance : PropertySet ConnectProperties where
  written := layout.written
  Accepted := layout.Accepted list
  decode_written hacc hdata hbytes := layout_lawful.decode_written hacc hdata hbytes

theorem accepted {x : ConnectProperties} (hreceive : x.receiveMaximum ≠ some 0)
    (hsize : x.maxPacketSize ≠ some 0) : PropertySet.Accepted x := by
  refine ⟨Layout.accepts_written fun pt q hq => ?_, layout_lawful.sparse_written x⟩
  cases pt with
  | receiveMaximum =>
    obtain ⟨v, hv, rfl⟩ := mem_heldOpt.mp hq
    exact ⟨{}, _, nonzero_eq_ok.mpr ⟨fun h0 => hreceive (by rw [hv, h0]), rfl⟩⟩
  | maximumPacketSize =>
    obtain ⟨v, hv, rfl⟩ := mem_heldOpt.mp hq
    exact ⟨{}, _, nonzero_eq_ok.mpr ⟨fun h0 => hsize (by rw [hv, h0]), rfl⟩⟩
  | requestResponseInformation | requestProblemInformation =>
    obtain ⟨v, -, rfl⟩ := mem_heldOpt.mp hq
    cases v <;> exact ⟨{}, _, rfl⟩
  | userProp =>
    obtain ⟨v, -, rfl⟩ := List.mem_map.mp hq
    exact ⟨{}, _, rfl⟩
  | _ =>
    first
    | obtain ⟨v, -, rfl⟩ := mem_heldOpt.mp hq
      exact ⟨{}, _, rfl⟩
    | exact absurd hq List.not_mem_nil

end ConnectProperties

namespace WillProperties

instance : Packetize.Encode WillProperties where
  encode self := do
    let data ← concat [
      encPropOpt .willDelayInterval self.willDelayInterval,
      encFormat self.payloadFormatIndicator,
      encPropOpt .messageExpiryInterval self.messageExpiryInterval,
      encPropOpt .contentType self.contentType,
      encPropOpt .responseTopic self.responseTopic,
      encPropOpt .correlationData self.correlationData,
      concat (self.userProperties.map (encProp .userProp))]
    insertPropertyLen data.length data

def layout : Layout WillProperties where
  held x
    | .willDelayInterval => heldOpt .willDelayInterval x.willDelayInterval
    | .payloadFormatIndicator => heldFormat x.payloadFormatIndicator
    | .messageExpiryInterval => heldOpt .messageExpiryInterval x.messageExpiryInterval
    | .contentType => heldOpt .contentType x.contentType
    | .responseTopic => heldOpt .responseTopic x.responseTopic
    | .correlationData => heldOpt .correlationData x.correlationData
    | .userProp => x.userProperties.map .userProp
    | _ => []
  single := notUserProp
  order := [.willDelayInterval, .payloadFormatIndicator, .messageExpiryInterval, .contentType,
    .responseTopic, .correlationData, .userProp]

theorem encode_eq (x : WillProperties) : encode x = encRecord (layout.written x) := by
  apply encRecord_of_pieces
  simp only [layout, List.forall₂_cons, List.forall₂_nil_right_iff]
  exact ⟨encPropOpt_eq (fun _ => rfl) _, encFormat_eq _, encPropOpt_eq (fun _ => rfl) _,
    encPropOpt_eq (fun _ => rfl) _, encPropOpt_eq (fun _ => rfl) _,
    encPropOpt_eq (fun _ => rfl) _, concat_encProp (fun _ => rfl) _, trivial⟩

theorem layout_lawful : layout.Lawful list {} where
  nodup := by decide
  held_init pt := by cases pt <;> rfl
  held_mem {x pt q} h := by
    cases pt with
    | payloadFormatIndicator =>
      obtain rfl := mem_heldFormat h
      exact ⟨rfl, by decide, by decide⟩
    | userProp =>
      obtain ⟨v, -, rfl⟩ := List.mem_map.mp h
      exact ⟨rfl, by decide, nofun⟩
    | _ =>
      first
      | obtain ⟨v, -, rfl⟩ := mem_heldOpt.mp h
        exact ⟨rfl, by decide, nofun⟩
      | exact absurd h List.not_mem_nil
  held_single x pt h := by
    cases pt with
    | payloadFormatIndicator => exact length_heldFormat_le _
    | userProp => exact absurd h (by decide)
    | _ => first | exact length_heldOpt_le | exact Nat.zero_le _
  held_ext {x y} h := by
    cases x
    cases y
    simp only [mk.injEq]
    exact ⟨heldOpt_inj (h .willDelayInterval) Property.willDelayInterval.inj,
      heldFormat_inj (h .payloadFormatIndicator),
      heldOpt_inj (h .messageExpiryInterval) Property.messageExpiryInterval.inj,
      heldOpt_inj (h .contentType) Property.contentType.inj,
      heldOpt_inj (h .responseTopic) Property.responseTopic.inj,
      heldOpt_inj (h .correlationData) Property.correlationData.inj,
      heldMany_inj (h .userProp) Property.userProp.inj⟩
  take_any {q x x'} h y := by
    cases q with
    | payloadFormatIndicator val =>
      obtain ⟨format, hformat, _⟩ := bind_eq_ok.mp h
      exact ⟨_, bind_eq_ok.mpr ⟨format, hformat, rfl⟩⟩
    | _ => first | exact ⟨_, rfl⟩ | exact absurd h (protocolErr_ne_ok _ _)
  take_held {x x' q} h hcanon hroom := by
    cases q with
    | payloadFormatIndicator val =>
      obtain ⟨format, hformat, h⟩ := bind_eq_ok.mp h
      obtain rfl := Outcome.ok.inj h
      rcases PayloadFormat.tryFrom_eq_ok hformat with ⟨rfl, -⟩ | ⟨rfl, rfl⟩
      · exact absurd rfl hcanon
      · exact Layout.held_put (hroom rfl) fun pt => by cases pt <;> rfl
    | userProp val =>
      obtain rfl := Outcome.ok.inj h
      exact Layout.held_push fun pt => by cases pt <;> first | rfl | exact List.map_append
    | _ =>
      first
      | obtain rfl := Outcome.ok.inj h
        exact Layout.held_put (hroom rfl) fun pt => by cases pt <;> rfl
      | exact absurd h (protocolErr_ne_ok _ _)

instance : PropertySet WillProperties where
  written := layout.written
  Accepted := layout.Accepted list
  decode_written hacc hdata hbytes := layout_lawful.decode_written hacc hdata hbytes

instance : PropertySet.Encodes WillProperties := ⟨encode_eq⟩

theorem accepted (x : WillProperties) : PropertySet.Accepted x := by
  refine ⟨Layout.accepts_written fun pt q hq => ?_, layout_lawful.sparse_written x⟩
  cases pt with
  | payloadFormatIndicator =>
    obtain rfl := mem_heldFormat hq
    exact ⟨{}, _, rfl⟩
  | userProp =>
    obtain ⟨v, -, rfl⟩ := List.mem_map.mp hq
    exact ⟨{}, _, rfl⟩
  | _ =>
    first
    | obtain ⟨v, -, rfl⟩ := mem_heldOpt.mp hq
      exact ⟨{}, _, rfl⟩
    | exact absurd hq List.not_mem_nil

end WillProperties

namespace PublishProperties

instance : Packetize.Encode PublishProperties where
  encode self := do
    let data ← concat [
      encFormat self.payloadFormatIndicator,
      encPropOpt .messageExpiryInterval self.messageExpiryInterval,
      encPropOpt .topicAlias self.topicAlias,
      encPropOpt .responseTopic self.responseTopic,
      encPropOpt .correlationData self.correlationData,
      encPropOpt .contentType self.contentType,
      concat (self.subscribtionIdentifier.map (encProp .subscriptionIdentifier)),
      concat (self.userProperties.map (encProp .userProp))]
    insertPropertyLen data.length data

def layout : Layout PublishProperties where
  held x
    | .payloadFormatIndicator => heldFormat x.payloadFormatIndicator
    | .messageExpiryInterval => heldOpt .messageExpiryInterval x.messageExpiryInterval
    | .topicAlias => heldOpt .topicAlias x.topicAlias
    | .responseTopic => heldOpt .responseTopic x.responseTopic
    | .correlationData => heldOpt .correlationData x.correlationData
    | .contentType => heldOpt .contentType x.contentType
    | .subscriptionIdentifier => x.subscribtionIdentifier.map .subscriptionIdentifier
    | .userProp => x.userProperties.map .userProp
    | _ => []
  single pt := pt ≠ .userProp ∧ pt ≠ .subscriptionIdentifier
  order := [.payloadFormatIndicator, .messageExpiryInterval, .topicAlias, .responseTopic,
    .correlationData, .contentType, .subscriptionIdentifier, .userProp]

theorem encode_eq (x : PublishProperties) : encode x = encRecord (layout.written x) := by
  apply encRecord_of_pieces
  simp only [layout, List.forall₂_cons, List.forall₂_nil_right_iff]
  exact ⟨encFormat_eq _, encPropOpt_eq (fun _ => rfl) _, encPropOpt_eq (fun _ => rfl) _,
    encPropOpt_eq (fun _ => rfl) _, encPropOpt_eq (fun _ => rfl) _,
    encPropOpt_eq (fun _ => rfl) _, concat_encProp (fun _ => rfl) _,
    concat_encProp (fun _ => rfl) _, trivial⟩

theorem layout_lawful : layout.Lawful list {} where
  nodup := by decide
  held_init pt := by cases pt <;> rfl
  held_mem {x pt q} h := by
    cases pt with
    | payloadFormatIndicator =>
      obtain rfl := mem_heldFormat h
      exact ⟨rfl, by decide, by decide⟩
    | subscriptionIdentifier | userProp =>
      obtain ⟨v, -, rfl⟩ := List.mem_map.mp h
      exact ⟨rfl, by decide, nofun⟩
    | _ =>
      first
      | obtain ⟨v, -, rfl⟩ := mem_heldOpt.mp h
        exact ⟨rfl, by decide, nofun⟩
      | exact absurd h List.not_mem_nil
  held_single x pt h := by
    cases pt with
    | payloadFormatIndicator => exact length_heldFormat_le _
    | subscriptionIdentifier | userProp => exact absurd h (by decide)
    | _ => first | exact length_heldOpt_le | exact Nat.zero_le _
  held_ext {x y} h := by
    cases x
    cases y
    simp only [mk.injEq]
    exact ⟨heldFormat_inj (h .payloadFormatIndicator),
      heldOpt_inj (h .messageExpiryInterval) Property.messageExpiryInterval.inj,
      heldOpt_inj (h .topicAlias) Property.topicAlias.inj,
      heldOpt_inj (h .responseTopic) Property.responseTopic.inj,
      heldOpt_inj (h .correlationData) Property.correlationData.inj,
      heldMany_inj (h .subscriptionIdentifier) Property.subscriptionIdentifier.inj,
      heldOpt_inj (h .contentType) Property.contentType.inj,
      heldMany_inj (h .userProp) Property.userProp.inj⟩
  take_any {q x x'} h y := by
    cases q with
    | payloadFormatIndicator val =>
      obtain ⟨format, hformat, _⟩ := bind_eq_ok.mp h
      exact ⟨_, bind_eq_ok.mpr ⟨format, hformat, rfl⟩⟩
    | topicAlias val =>
      exact ⟨_, nonzero_eq_ok.mpr ⟨(nonzero_eq_ok.mp h).1, rfl⟩⟩
    | _ => first | exact ⟨_, rfl⟩ | exact absurd h (protocolErr_ne_ok _ _)
  take_held {x x' q} h hcanon hroom := by
    cases q with
    | payloadFormatIndicator val =>
      obtain ⟨format, hformat, h⟩ := bind_eq_ok.mp h
      obtain rfl := Outcome.ok.inj h
      rcases PayloadFormat.tryFrom_eq_ok hformat with ⟨rfl, -⟩ | ⟨rfl, rfl⟩
      · exact absurd rfl hcanon
      · exact Layout.held_put (hroom rfl) fun pt => by cases pt <;> rfl
    | topicAlias val =>
      obtain ⟨-, rfl⟩ := nonzero_eq_ok.mp h
      exact Layout.held_put (hroom rfl) fun pt => by cases pt <;> rfl
    | subscriptionIdentifier val | userProp val =>
      obtain rfl := Outcome.ok.inj h
      exact Layout.held_push fun pt => by cases pt <;> first | rfl | exact List.map_append
    | _ =>
      first
      | obtain rfl := Outcome.ok.inj h
        exact Layout.held_put (hroom rfl) fun pt => by cases pt <;> rfl
      | exact absurd h (protocolErr_ne_ok _ _)

instance : PropertySet PublishProperties where
  written := layout.written
  Accepted := layout.Accepted list
  decode_written hacc hdata hbytes := layout_lawful.decode_written hacc hdata hbytes

instance : PropertySet.Encodes PublishProperties := ⟨encode_eq⟩

theorem accepts_written {x : PublishProperties} (halias : x.topicAlias ≠ some 0) :
    ∀ q ∈ layout.written x, list.Accepts q := by
  apply Layout.accepts_written
  intro pt q hq
  cases pt with
  | payloadFormatIndicator =>
    obtain rfl := mem_heldFormat hq
    exact ⟨{}, _, rfl⟩
  | topicAlias =>
    obtain ⟨v, hv, rfl⟩ := mem_heldOpt.mp hq
    exact ⟨{}, _, nonzero_eq_ok.mpr ⟨fun h0 => halias (by rw [hv, h0]), rfl⟩⟩
  | subscriptionIdentifier | userProp =>
    obtain ⟨v, -, rfl⟩ := List.mem_map.mp hq
    exact ⟨{}, _, rfl⟩
  | _ =>
    first
    | obtain ⟨v, -, rfl⟩ := mem_heldOpt.mp hq
      exact ⟨{}, _, rfl⟩
    | exact absurd hq List.not_mem_nil

/-- The two properties that may come more than once are found at most once. -/
theorem sparse_written_iff (x : PublishProperties) :
    Sparse list.unique (layout.written x) ↔
      x.userProperties.length ≤ 1 ∧ x.subscribtionIdentifier.length ≤ 1 := by
  constructor
  · intro h
    have huser := h .userProp rfl
    have hid := h .subscriptionIdentifier rfl
    rw [layout_lawful.group_written] at huser hid
    exact ⟨by simpa [layout] using huser, by simpa [layout] using hid⟩
  · rintro ⟨huser, hid⟩ pt hpt
    rw [layout_lawful.group_written]
    cases pt with
    | userProp => simpa [layout] using huser
    | subscriptionIdentifier => simpa [layout] using hid
    | _ => exact absurd hpt (by decide)

/-- A property leaves no zero alias behind, and adds itself to what may come more than once. -/
theorem take_grows {x x' : PublishProperties} {q : Property} (h : list.take x q = .ok x')
    (halias : x.topicAlias ≠ some 0) :
    x'.topicAlias ≠ some 0 ∧
      x'.userProperties.length =
        x.userProperties.length + (if q.toPropertyType = .userProp then 1 else 0) ∧
      x'.subscribtionIdentifier.length = x.subscribtionIdentifier.length +
        (if q.toPropertyType = .subscriptionIdentifier then 1 else 0) := by
  cases q with
  | payloadFormatIndicator val =>
    obtain ⟨format, -, h⟩ := bind_eq_ok.mp h
    obtain rfl := Outcome.ok.inj h
    exact ⟨halias, rfl, rfl⟩
  | topicAlias val =>
    obtain ⟨hval, rfl⟩ := nonzero_eq_ok.mp h
    exact ⟨fun hzero => hval (Option.some.inj hzero), rfl, rfl⟩
  | userProp val =>
    obtain rfl := Outcome.ok.inj h
    exact ⟨halias, List.length_append, rfl⟩
  | subscriptionIdentifier val =>
    obtain rfl := Outcome.ok.inj h
    exact ⟨halias, rfl, List.length_append⟩
  | _ =>
    first
    | obtain rfl := Outcome.ok.inj h
      exact ⟨halias, rfl, rfl⟩
    | exact absurd h (protocolErr_ne_ok _ _)

/-- What is read has no zero alias and repeats nothing. -/
theorem of_decProps {x : PublishProperties} {s : List UInt8} {n m : ℕ}
    (h : decProps PublishProperties s n = .ok (some x, m)) :
    x.topicAlias ≠ some 0 ∧ x.userProperties.length ≤ 1 ∧ x.subscribtionIdentifier.length ≤ 1 := by
  obtain ⟨_, _, -, -, hx, -⟩ := decode_of_decProps h
  obtain ⟨_, _, ps, _, dups, -, hfold, -⟩ := list.items_of_decode hx
  let Read (st : PublishProperties × List PropertyType) : Prop :=
    st.1.topicAlias ≠ some 0 ∧
      st.1.userProperties.length ≤ (if .userProp ∈ st.2 then 1 else 0) ∧
      st.1.subscribtionIdentifier.length ≤ if .subscriptionIdentifier ∈ st.2 then 1 else 0
  have hread : Read (x, dups) := by
    refine foldlM_invariant (P := Read) ?_ ⟨by simp, Nat.zero_le _, Nat.zero_le _⟩ hfold
    rintro ⟨y, seen⟩ q - ⟨y', seen'⟩ ⟨halias, huser, hid⟩ hstep
    obtain ⟨halias', huser', hid'⟩ := take_grows (list.step_eq_ok.mp hstep).2.1 halias
    exact ⟨halias', huser'.trans_le (list.count_step hstep rfl huser),
      hid'.trans_le (list.count_step hstep rfl hid)⟩
  obtain ⟨halias, huser, hid⟩ := hread
  refine ⟨halias, huser.trans ?_, hid.trans ?_⟩ <;> split_ifs <;> decide

end PublishProperties
end Mqtr
