import Mqtr.Core.Bisect
import Mqtr.Core.Transition
import Mqtr.Wire.Header

/-! The topic trie. A node keeps its children sorted by level name and its values sorted by their
own order; updates copy the nodes on the path. `none` stands for an `unreachable!()` or a failed
`unwrap` of the source. -/
namespace Mqtr

inductive RetainForwardRule where
  | onEverySubscribe
  | onNewSubscribe
  | never
  deriving DecidableEq, Repr

structure Subscription where
  topicFilter : TopicFilter
  clientId : ClientID
  shardId : UInt32
  subscriptionId : Option UInt32
  qos : QoS
  noLocal : Bool
  retainAsPublished : Bool
  retainForwardRule : RetainForwardRule
  deriving DecidableEq, Repr

/-- The hosting shard does not take part in the comparison. -/
def Subscription.eq (self other : Subscription) : Bool :=
  self.topicFilter = other.topicFilter ∧ self.clientId = other.clientId
    ∧ self.subscriptionId = other.subscriptionId ∧ self.qos = other.qos
    ∧ self.noLocal = other.noLocal ∧ self.retainAsPublished = other.retainAsPublished
    ∧ self.retainForwardRule = other.retainForwardRule

instance (priority := high) : BEq Subscription := ⟨Subscription.eq⟩

/-- Client first, then filter; the options do not take part. -/
def Subscription.cmp (self other : Subscription) : Ordering :=
  match compare self.clientId.val other.clientId.val with
  | .eq => compare self.topicFilter.val other.topicFilter.val
  | val => val

instance : Ord Subscription := ⟨Subscription.cmp⟩

inductive Node (V : Type) where
  | root (children : List (Node V))
  | child (name : String) (children : List (Node V)) (values : List V)
  deriving Repr

namespace Node
variable {V : Type}

def newNode (name : String) : Node V := .child name [] []

def asName : Node V → Option String
  | .root _ => none
  | .child name _ _ => some name

def isEmpty : Node V → Bool
  | .root _ => false
  | .child _ children values => children.length = 0 ∧ values.length = 0

def children : Node V → List (Node V)
  | .root children => children
  | .child _ children _ => children

def setChildren : Node V → List (Node V) → Node V
  | .root _, children => .root children
  | .child name _ values, children => .child name children values

/-- `binary_search_by_key(&in_level, |n| n.as_name())`. -/
def searchName (inLevel : String) (children : List (Node V)) : Option (Except ℕ ℕ) :=
  Bisect.search (fun n => n.asName.map (compare · inLevel)) children

/-- `(node, first, repeat)`. -/
def insertValue [Ord V] (value : V) : Node V → Option (Node V × Bool × Bool)
  | .root _ => none
  | .child name children [] => some (.child name children [value], true, false)
  | .child name children values => do
    match ← Bisect.search (fun v => some (compare v value)) values with
    | .error off =>
      let values ← Bisect.insertAt values off value
      some (.child name children values, false, false)
    | .ok _ => some (.child name children values, false, true)

/-- `(node, last, missing)`. The last value is compared by equality, one of several by order. -/
def removeValue [Ord V] [BEq V] (value : V) : Node V → Option (Node V × Bool × Bool)
  | .root _ => none
  | .child _ _ [] => none
  | .child name children [v] =>
    if v == value then some (.child name children [], true, false)
    else some (.child name children [v], false, true)
  | .child name children values => do
    match ← Bisect.search (fun v => some (compare v value)) values with
    | .ok off =>
      let (_, values) ← Bisect.removeAt values off
      some (.child name children values, false, false)
    | .error _ => some (.child name children values, false, true)

/-- `(node, first, repeat)`. -/
def sub [Ord V] : List String → V → Node V → Option (Node V × Bool × Bool)
  | [], value, self => self.insertValue value
  | inLevel :: inLevels, value, self => do
    match ← searchName inLevel self.children with
    | .ok off =>
      let (node, children) ← Bisect.removeAt self.children off
      let (node, first, rep) ← sub inLevels value node
      let children ← Bisect.insertAt children off node
      some (self.setChildren children, first, rep)
    | .error off =>
      let (node, first, rep) ← sub inLevels value (newNode inLevel)
      let children ← Bisect.insertAt self.children off node
      some (self.setChildren children, first, rep)

/-- `(node, last, missing)`; no node is left where the last value below it went. -/
def unsub [Ord V] [BEq V] : List String → V → Node V → Option (Option (Node V) × Bool × Bool)
  | [], value, self => do
    let (node, last, miss) ← self.removeValue value
    if node.isEmpty then some (none, last, miss) else some (some node, last, miss)
  | inLevel :: inLevels, value, self => do
    match ← searchName inLevel self.children with
    | .ok off =>
      let (node, children) ← Bisect.removeAt self.children off
      match ← unsub inLevels value node with
      | (some node, last, miss) =>
        let children ← Bisect.insertAt children off node
        some (some (self.setChildren children), last, miss)
      | (none, last, miss) =>
        -- the root is never empty in the sense of `isEmpty`
        let node := self.setChildren children
        if node.isEmpty then some (none, last, miss) else some (some node, last, miss)
    | .error _ => some (some self, false, true)

/-- `first`: whether there was no value before. -/
def replaceValue (value : V) : Node V → Option (Node V × Bool)
  | .root _ => none
  | .child name children [] => some (.child name children [value], true)
  | .child name children _ => some (.child name children [value], false)

/-- `missing`. A node without a value aborts. -/
def removeTopic : Node V → Option (Node V × Bool)
  | .child name children [_] => some (.child name children [], false)
  | .child _ _ _ => none
  | .root _ => none

/-- The way down of `set`, which is that of `sub`: `leaf` is what happens at the end of the path, and
nodes that are not there are made. -/
def grow {α : Type} (leaf : Node V → Option (Node V × α)) :
    List String → Node V → Option (Node V × α)
  | [], self => leaf self
  | inLevel :: inLevels, self => do
    match ← searchName inLevel self.children with
    | .ok off =>
      let (node, children) ← Bisect.removeAt self.children off
      let (node, out) ← grow leaf inLevels node
      let children ← Bisect.insertAt children off node
      some (self.setChildren children, out)
    | .error off =>
      let (node, out) ← grow leaf inLevels (newNode inLevel)
      let children ← Bisect.insertAt self.children off node
      some (self.setChildren children, out)

/-- The way down of `remove`, which is that of `unsub`: nodes that become empty go, and `missing` is
returned where the path ends early. -/
def prune {α : Type} (leaf : Node V → Option (Node V × α)) (missing : α) :
    List String → Node V → Option (Option (Node V) × α)
  | [], self => do
    let (node, out) ← leaf self
    if node.isEmpty then some (none, out) else some (some node, out)
  | inLevel :: inLevels, self => do
    match ← searchName inLevel self.children with
    | .ok off =>
      let (node, children) ← Bisect.removeAt self.children off
      match ← prune leaf missing inLevels node with
      | (some node, out) =>
        let children ← Bisect.insertAt children off node
        some (some (self.setChildren children), out)
      | (none, out) =>
        let node := self.setChildren children
        if node.isEmpty then some (none, out) else some (some node, out)
    | .error _ => some (some self, missing)

/-- `(node, first)`. -/
def set (inLevels : List String) (value : V) (self : Node V) : Option (Node V × Bool) :=
  grow (replaceValue value) inLevels self

/-- `(node, missing)`. -/
def remove (inLevels : List String) (self : Node V) : Option (Option (Node V) × Bool) :=
  prune removeTopic true inLevels self

end Node

def compareLevel (inLevel trieLevel : String) : Bool :=
  if inLevel = trieLevel then true else false

/-- `(level_match, multi_level_match)`. -/
def matchLevel (inLvl trieLevel : String) : Bool × Bool :=
  if inLvl = "#" then (true, true)
  else if trieLevel = "#" then (true, true)
  else if inLvl = "+" then (true, false)
  else if trieLevel = "+" then (true, false)
  else if compareLevel inLvl trieLevel then (true, false)
  else (false, false)

namespace Node
variable {V : Type}

/-- Children a lookup walks through: with `dollar`, the root leaves out its wildcard children. -/
def candidates (dollar : Bool) : Node V → Option (List (Node V))
  | .root children =>
    if dollar then
      children.filterM fun node => do
        let name ← node.asName
        some (!(name = "#" || name = "+"))
    else some children
  | .child _ children _ => some children

/-- One turn of the loop over the children: `deeper` is the lookup of the remaining levels. -/
def matchChild (deeper : Node V → Option (Option (List V))) (inLevel : String) (acc : List V)
    (node : Node V) : Option (List V) := do
  let name ← node.asName
  match matchLevel inLevel name with
  | (_, true) =>
    match node with
    | .child _ _ values => some (acc ++ values)
    | .root _ => some acc
  | (true, _) =>
    match ← deeper node with
    | some values => some (acc ++ values)
    | none => some acc
  | (false, false) => some acc

def matchTopic (dollar : Bool) : List String → Node V → Option (Option (List V))
  | [], .child _ _ values => some (some values)
  | [], .root _ => some none
  | inLevel :: inLevels, self => do
    let children ← self.candidates dollar
    let acc ← children.foldlM (matchChild (matchTopic dollar inLevels) inLevel) []
    some (some acc)

end Node

structure Stats where
  count : ℕ
  repeats : ℕ
  missing : ℕ
  lookups : ℕ
  hits : ℕ
  deriving DecidableEq, Repr

def usizeMax : ℕ := 2 ^ 64 - 1

def saturatingAdd (a b : ℕ) : ℕ := min (a + b) usizeMax

/-- What the lock of a trie protects. -/
structure Inner (V : Type) where
  stats : Stats
  root : Node V
  deriving Repr

namespace Inner
variable {V κ : Type} [IterTopicPath κ]

def default : Inner V := ⟨⟨0, 0, 0, 0, 0⟩, .root []⟩

def doSubscribe [Ord V] (key : κ) (value : V) (inner : Inner V) : Option (Inner V) := do
  let (root, first, rep) ← inner.root.sub (iterTopicPath key) value
  let stats := inner.stats
  let stats := if first then { stats with count := saturatingAdd stats.count 1 } else stats
  let stats := if rep then { stats with repeats := saturatingAdd stats.repeats 1 } else stats
  some ⟨stats, root⟩

def doUnsubscribe [Ord V] [BEq V] (key : κ) (value : V) (inner : Inner V) : Option (Inner V) := do
  let (root, last, missing) ← inner.root.unsub (iterTopicPath key) value
  let root ← root
  let stats := inner.stats
  let stats := if last then { stats with count := stats.count - 1 } else stats
  -- the counter of missing topics is decremented
  let stats := if missing then { stats with missing := stats.missing - 1 } else stats
  some ⟨stats, root⟩

def doSet (key : κ) (value : V) (inner : Inner V) : Option (Inner V) := do
  let (root, first) ← inner.root.set (iterTopicPath key) value
  let stats := inner.stats
  let stats := if first then { stats with count := saturatingAdd stats.count 1 } else stats
  some ⟨stats, root⟩

def doRemove (key : κ) (inner : Inner V) : Option (Inner V) := do
  let (root, missing) ← inner.root.remove (iterTopicPath key)
  let root ← root
  let stats := inner.stats
  -- the counter of missing topics is decremented here too
  let stats := if missing then { stats with missing := stats.missing - 1 }
    else { stats with count := stats.count - 1 }
  some ⟨stats, root⟩

/-- The lookup also returns the `Inner` it writes back. -/
def matchTopicName (key : κ) (inner : Inner V) : Option (List V × Inner V) := do
  let stats := { inner.stats with lookups := saturatingAdd inner.stats.lookups 1 }
  match ← inner.root.matchTopic true (iterTopicPath key) with
  | some vals => some (vals, ⟨{ stats with hits := saturatingAdd stats.hits 1 }, inner.root⟩)
  | none => some ([], ⟨stats, inner.root⟩)

/-- The lookup of retained messages, without the rule for `$`. It asserts that one message was
found. -/
def matchTopicFilter (key : κ) (inner : Inner V) : Option (Option V × Inner V) := do
  let stats := { inner.stats with lookups := saturatingAdd inner.stats.lookups 1 }
  match ← inner.root.matchTopic false (iterTopicPath key) with
  | some [val] =>
    some (some val, ⟨{ stats with hits := saturatingAdd stats.hits 1 }, inner.root⟩)
  | some _ => none
  | none => some (none, ⟨stats, inner.root⟩)

end Inner

/-- The calls a trie serves, with keys split into levels. -/
inductive TrieOp (V : Type) where
  | subscribe (levels : List String) (value : V)
  | unsubscribe (levels : List String) (value : V)
  | matchTopicName (levels : List String)
  deriving DecidableEq, Repr

namespace TrieOp
variable {V : Type} [Ord V] [BEq V]

/-- What a call writes back when it found `inner`. -/
def apply (inner : Inner V) : TrieOp V → Option (Inner V)
  | .subscribe levels value => inner.doSubscribe levels value
  | .unsubscribe levels value => inner.doUnsubscribe levels value
  | .matchTopicName levels => (inner.matchTopicName levels).map Prod.snd

/-- The calls one after another; none of them aborts. -/
def run (inner : Inner V) (ops : List (TrieOp V)) : Option (Inner V) :=
  Transition.run TrieOp.apply inner ops

/-- Reached from the default trie by calls that return. -/
def Reachable (inner : Inner V) : Prop :=
  ∃ ops, run Inner.default ops = some inner

end TrieOp

/-- The updates of a trie of retained messages, with topic names split into levels. -/
inductive RetainOp (V : Type) where
  | set (levels : List String) (value : V)
  | remove (levels : List String)
  deriving DecidableEq, Repr

namespace RetainOp
variable {V : Type}

def apply (inner : Inner V) : RetainOp V → Option (Inner V)
  | .set levels value => inner.doSet levels value
  | .remove levels => inner.doRemove levels

def run (inner : Inner V) (ops : List (RetainOp V)) : Option (Inner V) :=
  Transition.run RetainOp.apply inner ops

end RetainOp
end Mqtr
