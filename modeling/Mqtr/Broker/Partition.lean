import Mqtr.Core.Fibre
import Mqtr.Broker.Teardown

/-! The shard of a client: the hash of its identifier, folded to 32 bits and cut to the number of
shards, and the table of shards in which the cluster looks it up. The hash is a parameter. -/
namespace Mqtr
open Outcome Std

def isPowerOf2 (n : UInt32) : Bool := n ≠ 0 ∧ (n &&& (n - 1)) = 0

/-- `(0..32).skip_while(|i| (1 << i) < n).next()`. -/
def ceilPowerOf2 (n : UInt32) : UInt64 :=
  match ((List.range 32).dropWhile fun i => (1 : UInt32) <<< UInt32.ofNat i < n).head? with
  | some i => 1 <<< UInt64.ofNat i
  | none => (1 : UInt64) <<< 32

/-- The configuration, with what the cluster reads of it. -/
structure ClusterConfig extends Config where
  numShards : Option UInt32 := none

/-- `Config::num_shards`, on a machine with a number of processors. The default is computed even if
it is not used, and does not fit for more than 2^31 processors. -/
def ClusterConfig.numShardsOrCores (self : ClusterConfig) (numCpus : UInt32) : Result UInt32 :=
  let numCores := ceilPowerOf2 numCpus
  if numCores ≤ 0xFFFFFFFF then .ok (self.numShards.getD numCores.toUInt32) else .panic

/-- `Config::default`, on a machine with a number of processors: it has the same number of shards. -/
def ClusterConfig.default (numCpus : UInt32) : Result ClusterConfig :=
  let numCores := ceilPowerOf2 numCpus
  if numCores ≤ 0xFFFFFFFF then
    .ok {
      maxPacketSize := some 1048576
      pktBatchSize := some Config.defMqttPktBatchSize
      keepAliveFactor := some Config.defMqttKeepAliveFactor
      receiveMaximum := some Config.defMqttReceiveMaximum
      maximumQos := some Config.defMqttMaxQos
      retainAvailable := some Config.defMqttRetainAvailable
      topicAliasMax := some 65535
      ignoreDuplicate := some Config.defMqttIgnoreDuplicate
      numShards := some numCores.toUInt32 }
  else .panic

/-- A `Cluster` that is not yet spawned. -/
structure ClusterInit where
  name : String
  config : ClusterConfig

/-- `Cluster::from_config`. -/
def ClusterInit.fromConfig (config : ClusterConfig) (numCpus : UInt32) : Result ClusterInit := do
  let numShards ← config.numShardsOrCores numCpus
  if numShards = 0 then errDesc .invalidInput "num_shards can't be ZERO"
  else if !isPowerOf2 numShards then
    errDesc .invalidInput ("num. of shards must be power of 2 " ++ toString numShards)
  else .ok ⟨config.name ++ "-cluster-init", config⟩

theorem isPowerOf2_iff (n : UInt32) : isPowerOf2 n = true ↔ ∃ k < 32, n.toNat = 2 ^ k := by
  have hlt : n.toNat < 2 ^ 32 := n.toNat_lt
  have hsub (hne : n.toNat ≠ 0) : (n &&& (n - 1)).toNat = n.toNat &&& (n.toNat - 1) := by
    have hle : 1 ≤ n := UInt32.le_iff_toNat_le.mpr (Nat.one_le_iff_ne_zero.mpr hne)
    rw [UInt32.toNat_and, UInt32.toNat_sub_of_le _ _ hle]
    rfl
  simp only [isPowerOf2, ne_eq, decide_eq_true_eq]
  constructor
  · rintro ⟨hne, hand⟩
    have hne' : n.toNat ≠ 0 := fun h => hne (UInt32.toNat_inj.mp h)
    have hzero : n.toNat &&& (n.toNat - 1) = 0 := by
      rw [← hsub hne', hand]
      rfl
    obtain ⟨k, hk⟩ := (Nat.and_sub_one_eq_zero_iff_isPowerOfTwo hne').mp hzero
    rw [hk] at hlt
    exact ⟨k, (Nat.pow_lt_pow_iff_right (by decide)).mp hlt, hk⟩
  · rintro ⟨k, -, hk⟩
    have hne : n.toNat ≠ 0 := by
      rw [hk]
      exact (Nat.two_pow_pos k).ne'
    refine ⟨fun h => hne (by rw [h]; rfl), UInt32.toNat_inj.mp ?_⟩
    rw [hsub hne]
    exact (Nat.and_sub_one_eq_zero_iff_isPowerOfTwo hne).mpr ⟨k, hk⟩

/-- The search goes on exactly below the exponent of the least power. -/
theorem shift_lt_iff {n : UInt32} {i : ℕ} (hi : i < 32) :
    (1 : UInt32) <<< UInt32.ofNat i < n ↔ i < Nat.clog 2 n.toNat := by
  have hshift : ((1 : UInt32) <<< UInt32.ofNat i).toNat = 2 ^ i := by
    have hpow : 2 ^ i < 2 ^ 32 := Nat.pow_lt_pow_right (by decide) hi
    have hamount : (UInt32.ofNat i).toNat = i :=
      UInt32.toNat_ofNat_of_lt' (hi.trans (by decide))
    have hone : (1 : UInt32).toNat = 1 := rfl
    rw [UInt32.toNat_shiftLeft, hamount, Nat.mod_eq_of_lt hi, hone, Nat.one_shiftLeft,
      Nat.mod_eq_of_lt hpow]
  rw [UInt32.lt_iff_toNat_lt, hshift, Nat.lt_clog_iff_pow_lt (by decide)]

theorem clog_toNat_le (n : UInt32) : Nat.clog 2 n.toNat ≤ 32 :=
  Nat.clog_le_of_le_pow n.toNat_lt.le

theorem ceilPowerOf2_toNat (n : UInt32) : (ceilPowerOf2 n).toNat = 2 ^ Nat.clog 2 n.toNat := by
  have hfind := List.find?_eq_head?_dropWhile_not
    (fun i => !decide ((1 : UInt32) <<< UInt32.ofNat i < n)) (List.range 32)
  simp only [Bool.not_not] at hfind
  unfold ceilPowerOf2
  rw [← hfind]
  rcases (clog_toNat_le n).lt_or_eq with hlt | heq
  · have hsome : (List.range 32).find? (fun i => !decide ((1 : UInt32) <<< UInt32.ofNat i < n)) =
        some (Nat.clog 2 n.toNat) := by
      refine List.find?_range_eq_some.mpr ⟨?_, List.mem_range.mpr hlt, fun j hj => ?_⟩
      · simp [shift_lt_iff hlt]
      · simpa [shift_lt_iff (hj.trans hlt)] using hj
    have hwidth : Nat.clog 2 n.toNat < 64 := hlt.trans (by decide)
    have hpow : 2 ^ Nat.clog 2 n.toNat < 2 ^ 64 := Nat.pow_lt_pow_right (by decide) hwidth
    have hamount : (UInt64.ofNat (Nat.clog 2 n.toNat)).toNat = Nat.clog 2 n.toNat :=
      UInt64.toNat_ofNat_of_lt' (hwidth.trans (by decide))
    have hone : (1 : UInt64).toNat = 1 := rfl
    rw [hsome]
    dsimp only
    rw [UInt64.toNat_shiftLeft, hamount, Nat.mod_eq_of_lt hwidth, hone, Nat.one_shiftLeft,
      Nat.mod_eq_of_lt hpow]
  · have hnone : (List.range 32).find? (fun i => !decide ((1 : UInt32) <<< UInt32.ofNat i < n)) =
        none := by
      refine List.find?_range_eq_none.mpr fun i hi => ?_
      simpa [shift_lt_iff hi, heq] using hi
    rw [hnone, heq]
    rfl

theorem ceilPowerOf2_isLeast (n : UInt32) :
    IsLeast {p | n.toNat ≤ p ∧ ∃ k, p = 2 ^ k} (ceilPowerOf2 n).toNat := by
  rw [ceilPowerOf2_toNat]
  refine ⟨⟨Nat.le_pow_clog (by decide) _, _, rfl⟩, ?_⟩
  rintro _ ⟨hle, k, rfl⟩
  exact Nat.pow_le_pow_right (by decide) (Nat.clog_le_of_le_pow hle)

/-- A default that fits into 32 bits is at most the greatest power below them. -/
theorem ceilPowerOf2_fits_iff (n : UInt32) :
    ceilPowerOf2 n ≤ 0xFFFFFFFF ↔ (ceilPowerOf2 n).toNat ≤ 2 ^ 31 := by
  have hmax : (0xFFFFFFFF : UInt64).toNat = 2 ^ 32 - 1 := rfl
  rw [UInt64.le_iff_toNat_le, hmax]
  constructor
  · intro h
    have hpow : 2 ^ Nat.clog 2 n.toNat < 2 ^ 32 := by
      rw [← ceilPowerOf2_toNat]
      omega
    have hexp : Nat.clog 2 n.toNat < 32 := (Nat.pow_lt_pow_iff_right (by decide)).mp hpow
    rw [ceilPowerOf2_toNat]
    exact Nat.pow_le_pow_right (by decide) (Nat.le_of_lt_succ hexp)
  · intro h
    exact h.trans (by decide)

theorem isPowerOf2_ceilPowerOf2 {n : UInt32} (h : (ceilPowerOf2 n).toNat ≤ 2 ^ 31) :
    isPowerOf2 (ceilPowerOf2 n).toUInt32 := by
  have hval : (ceilPowerOf2 n).toUInt32.toNat = 2 ^ Nat.clog 2 n.toNat := by
    rw [UInt64.toNat_toUInt32, Nat.mod_eq_of_lt (by omega), ceilPowerOf2_toNat]
  rw [ceilPowerOf2_toNat] at h
  have hexp : Nat.clog 2 n.toNat ≤ 31 := (Nat.pow_le_pow_iff_right (by decide)).mp h
  exact (isPowerOf2_iff _).mpr ⟨_, Nat.lt_succ_of_le hexp, hval⟩

theorem ClusterInit.fromConfig_of_isPowerOf2 {config : ClusterConfig} {numCpus n : UInt32}
    (hn : config.numShardsOrCores numCpus = .ok n) (hpow : isPowerOf2 n) :
    fromConfig config numCpus = .ok ⟨config.name ++ "-cluster-init", config⟩ := by
  have hne : n ≠ 0 := by
    rintro rfl
    cases hpow
  rw [fromConfig, hn, ok_bind, if_neg hne, hpow]
  rfl

/-- A number of shards that the configuration has computed itself is accepted: where it is left open, and
in the default configuration, which may come from a machine with another number of processors. -/
theorem ClusterInit.fromConfig_of_default {config : ClusterConfig} {numCpus : UInt32}
    (hconfig : config.numShards = none ∨ ∃ cpus, ClusterConfig.default cpus = .ok config)
    (hfits : (ceilPowerOf2 numCpus).toNat ≤ 2 ^ 31) :
    fromConfig config numCpus = .ok ⟨config.name ++ "-cluster-init", config⟩ := by
  have hn : config.numShardsOrCores numCpus =
      .ok (config.numShards.getD (ceilPowerOf2 numCpus).toUInt32) :=
    if_pos ((ceilPowerOf2_fits_iff numCpus).mpr hfits)
  refine fromConfig_of_isPowerOf2 hn ?_
  rcases hconfig with hnone | ⟨cpus, hdefault⟩
  · rw [hnone]
    exact isPowerOf2_ceilPowerOf2 hfits
  · simp only [ClusterConfig.default] at hdefault
    split_ifs at hdefault with hcpus
    obtain rfl := Outcome.ok.inj hdefault
    exact isPowerOf2_ceilPowerOf2 ((ceilPowerOf2_fits_iff cpus).mp hcpus)

/-- What the two helpers compute, and that the default number of shards passes the check. -/
theorem powers_of_2 :
    (∀ n : UInt32, isPowerOf2 n = true ↔ ∃ k < 32, n.toNat = 2 ^ k) ∧
      (∀ n : UInt32, IsLeast {p | n.toNat ≤ p ∧ ∃ k, p = 2 ^ k} (ceilPowerOf2 n).toNat ∧
        (ceilPowerOf2 n).toNat ≤ 2 ^ 32) ∧
      ceilPowerOf2 0 = 1 ∧
      ∀ (config : ClusterConfig) (numCpus : UInt32),
        (config.numShards = none ∨ ∃ cpus, ClusterConfig.default cpus = .ok config) →
        (ceilPowerOf2 numCpus).toNat ≤ 2 ^ 31 →
          ∃ cluster, ClusterInit.fromConfig config numCpus = .ok cluster := by
  refine ⟨isPowerOf2_iff, fun n => ⟨ceilPowerOf2_isLeast n, ?_⟩, rfl, ?_⟩
  · rw [ceilPowerOf2_toNat]
    exact Nat.pow_le_pow_right (by decide) (clog_toNat_le n)
  · intro config numCpus hconfig hfits
    exact ⟨_, ClusterInit.fromConfig_of_default hconfig hfits⟩

namespace Rebalancer

/-- The 128 bits of a hash, folded twice. -/
def foldHash (hash : BitVec 128) : UInt32 :=
  let hash := (hash &&& 0xFFFFFFFFFFFFFFFF#128) ^^^ ((hash >>> 64) &&& 0xFFFFFFFFFFFFFFFF#128)
  ⟨((hash &&& 0xFFFFFFFF#128) ^^^ ((hash >>> 32) &&& 0xFFFFFFFF#128)).setWidth 32⟩

def partition (hash : BitVec 128) (numShards : UInt32) : UInt32 :=
  foldHash hash &&& (numShards - 1)

def sessionPartition (cityhash : List UInt8 → BitVec 128) (id : ClientID) (numShards : UInt32) :
    UInt32 :=
  partition (cityhash id.val.toUTF8.toList) numShards

theorem getLsbD_mask (n i : ℕ) : (BitVec.ofNat 128 (2 ^ n - 1)).getLsbD i =
    (decide (i < 128) && decide (i < n)) := by
  rw [BitVec.getLsbD_ofNat, Nat.testBit_two_pow_sub_one]

/-- A bit of the folded hash is the sum of the four bits that come to lie on it. -/
theorem getLsbD_foldHash (hash : BitVec 128) {i : ℕ} (hi : i < 32) :
    (foldHash hash).toBitVec.getLsbD i =
      ((hash.getLsbD i ^^ hash.getLsbD (64 + i)) ^^
        (hash.getLsbD (32 + i) ^^ hash.getLsbD (64 + (32 + i)))) := by
  have h64 := getLsbD_mask 64
  have h32 := getLsbD_mask 32
  simp only [Nat.reducePow, Nat.reduceSub] at h64 h32
  have hi₁ : i < 128 := by omega
  have hi₂ : 32 + i < 128 := by omega
  have hi₃ : i < 64 := by omega
  have hi₄ : 32 + i < 64 := by omega
  simp only [foldHash, BitVec.getLsbD_setWidth, BitVec.getLsbD_xor, BitVec.getLsbD_and,
    BitVec.getLsbD_ushiftRight, h64, h32, hi, hi₁, hi₂, hi₃, hi₄, decide_true, Bool.and_true,
    Bool.true_and]

theorem eq_of_getLsbD_eq {k l : UInt32}
    (h : ∀ i < 32, k.toBitVec.getLsbD i = l.toBitVec.getLsbD i) : k = l :=
  UInt32.toBitVec_inj.mp (BitVec.eq_of_getLsbD_eq h)

/-- Folding is bitwise, so that it carries over to differences of hashes. -/
theorem foldHash_xor (a b : BitVec 128) : foldHash (a ^^^ b) = foldHash a ^^^ foldHash b := by
  refine eq_of_getLsbD_eq fun i hi => ?_
  simp [getLsbD_foldHash _ hi, Bool.xor_left_comm]

theorem foldHash_setWidth (k : UInt32) : foldHash (k.toBitVec.setWidth 128) = k := by
  refine eq_of_getLsbD_eq fun i hi => ?_
  have hi' : i < 128 := by omega
  have h64 : 32 ≤ 64 + i := by omega
  have h96 : 32 ≤ 64 + (32 + i) := by omega
  simp [getLsbD_foldHash _ hi, BitVec.getLsbD_setWidth, BitVec.getLsbD_of_ge, h64, h96, hi']

/-- A mask of ones keeps what is below it, and cuts everything else to it. -/
theorem and_sub_one_toNat {n : UInt32} (h : isPowerOf2 n) (k : UInt32) :
    (k &&& (n - 1)).toNat = k.toNat % n.toNat := by
  obtain ⟨j, -, hj⟩ := (isPowerOf2_iff n).mp h
  have hle : 1 ≤ n := UInt32.le_iff_toNat_le.mpr (by rw [hj]; exact Nat.one_le_two_pow)
  have hsub : (n - 1).toNat = n.toNat - 1 := UInt32.toNat_sub_of_le _ _ hle
  rw [UInt32.toNat_and, hsub, hj, Nat.and_two_pow_sub_one_eq_mod]

theorem partition_lt {n : UInt32} (h : isPowerOf2 n) (hash : BitVec 128) : partition hash n < n := by
  rw [UInt32.lt_iff_toNat_lt, partition, and_sub_one_toNat h]
  refine Nat.mod_lt _ (Nat.pos_of_ne_zero fun hzero => ?_)
  have hne : n = 0 := UInt32.toNat_inj.mp hzero
  simp [isPowerOf2, hne] at h

/-- Adding a shard's number to the hashes, bit by bit, carries the first shard to that one. -/
theorem partition_xor {n k : UInt32} (h : isPowerOf2 n) (hk : k < n) (hash : BitVec 128) :
    partition (hash ^^^ k.toBitVec.setWidth 128) n = k ↔ partition hash n = 0 := by
  have hkeep : k &&& (n - 1) = k := by
    rw [← UInt32.toNat_inj, and_sub_one_toNat h, Nat.mod_eq_of_lt (UInt32.lt_iff_toNat_lt.mp hk)]
  have hmove : partition (hash ^^^ k.toBitVec.setWidth 128) n = partition hash n ^^^ k := by
    have hdistrib (a b m : UInt32) : (a ^^^ b) &&& m = (a &&& m) ^^^ (b &&& m) :=
      eq_of_getLsbD_eq fun i _ => by simp [Bool.and_xor_distrib_right]
    rw [partition, foldHash_xor, foldHash_setWidth, hdistrib, hkeep]
    rfl
  simp [hmove]

theorem image_toNat_lt (n : UInt32) : UInt32.toNat '' {k | k < n} = Finset.range n.toNat := by
  ext i
  simp only [Set.mem_image, Set.mem_ofPred_eq, Finset.coe_range, Set.mem_Iio]
  constructor
  · rintro ⟨k, hk, rfl⟩
    exact UInt32.lt_iff_toNat_lt.mp hk
  · intro hi
    have hofNat : (UInt32.ofNat i).toNat = i := UInt32.toNat_ofNat_of_lt' (hi.trans n.toNat_lt)
    exact ⟨UInt32.ofNat i, UInt32.lt_iff_toNat_lt.mpr (by rwa [hofNat]), hofNat⟩

theorem ncard_lt (n : UInt32) : {k | k < n}.ncard = n.toNat := by
  rw [← Set.ncard_image_of_injective _ fun _ _ => UInt32.toNat_inj.mp, image_toNat_lt,
    Set.ncard_coe_finset, Finset.card_range]

/-- Every shard has the same number of hashes. -/
theorem ncard_partition {n : UInt32} (h : isPowerOf2 n) {k : UInt32} (hk : k < n) :
    {hash | partition hash n = k}.ncard * n.toNat = 2 ^ 128 := by
  have hfinite : {k | k < n}.Finite :=
    Set.Finite.of_finite_image (image_toNat_lt n ▸ Finset.finite_toSet _)
      fun _ _ _ _ => UInt32.toNat_inj.mp
  have hinvol (c : BitVec 128) : Function.Involutive (· ^^^ c) := fun hash => by simp
  have hcard := Fibre.ncard_fibre_mul hfinite (fun hash => partition_lt h hash)
    (fun k hk => ⟨(hinvol (k.toBitVec.setWidth 128)).toPerm, partition_xor h hk⟩) hk
  rwa [ncard_lt, Nat.card_congr BitVec.equivFin.toEquiv, Nat.card_fin] at hcard

end Rebalancer

namespace ClusterInit

/-- The loop of `spawn` over `0..num_shards`. In the source `to_msg_tx` hits `unreachable!` on the handle of
a shard that has just been spawned, so that `Cluster::spawn` aborts before the table is in use. -/
def spawnShards (config : Config) (numShards : UInt32) : ExtTreeMap UInt32 Shard :=
  (List.range numShards.toNat).foldl (fun shards i =>
    shards.insert (UInt32.ofNat i) (Shard.spawn config (UInt32.ofNat i))) ∅

/-- `handle_add_connection`: the session goes to the shard of the identifier in the CONNECT. Where
there is none, the code is not written yet. -/
def handleAddConnection (cityhash : List UInt8 → BitVec 128) (numShards : UInt32)
    (shards : ExtTreeMap UInt32 Shard) (args : AddSessionArgs) :
    Result (ExtTreeMap UInt32 Shard) :=
  let shardId := Rebalancer.sessionPartition cityhash args.pkt.payload.clientId numShards
  match shards[shardId]? with
  | some shard => do
    let shard ← shard.handleAddSession args
    .ok (shards.insert shardId shard)
  | none => .panic

/-- The keys of the table are the numbers below the number of shards. -/
def Keyed (numShards : UInt32) (shards : ExtTreeMap UInt32 Shard) : Prop :=
  ∀ k, k ∈ shards ↔ k < numShards

theorem spawnShards_keyed (config : Config) (numShards : UInt32) :
    Keyed numShards (spawnShards config numShards) := by
  have hrange (l : List ℕ) (shards : ExtTreeMap UInt32 Shard) (k : UInt32) :
      k ∈ l.foldl (fun shards i =>
          shards.insert (UInt32.ofNat i) (Shard.spawn config (UInt32.ofNat i))) shards ↔
        (∃ i ∈ l, UInt32.ofNat i = k) ∨ k ∈ shards := by
    induction l generalizing shards with
    | nil => simp
    | cons i l ih =>
      rw [List.foldl_cons, ih, OrdMap.mem_insert]
      simp only [List.mem_cons, exists_eq_or_imp]
      exact or_left_comm.trans or_assoc.symm
  intro k
  rw [spawnShards, hrange, UInt32.lt_iff_toNat_lt]
  constructor
  · rintro (⟨i, hi, rfl⟩ | hk)
    · rw [UInt32.toNat_ofNat_of_lt' ((List.mem_range.mp hi).trans numShards.toNat_lt)]
      exact List.mem_range.mp hi
    · simp at hk
  · intro hk
    exact .inl ⟨k.toNat, List.mem_range.mpr hk, UInt32.ofNat_toNat⟩

theorem handleAddConnection_keyed {cityhash : List UInt8 → BitVec 128} {numShards : UInt32}
    {shards shards' : ExtTreeMap UInt32 Shard} {args : AddSessionArgs}
    (h : Keyed numShards shards)
    (hs : handleAddConnection cityhash numShards shards args = .ok shards') :
    Keyed numShards shards' := by
  simp only [handleAddConnection] at hs
  split at hs
  · rename_i shard hshard
    obtain ⟨shard', -, hs⟩ := bind_eq_ok.mp hs
    cases hs
    intro k
    rw [OrdMap.mem_insert, h k]
    refine or_iff_right_of_imp ?_
    rintro rfl
    exact (h _).mp (ExtTreeMap.mem_iff_isSome_getElem?.mpr (by simp [hshard]))
  · cases hs

theorem isPowerOf2_of_fromConfig {config : ClusterConfig} {numCpus : UInt32} {cluster : ClusterInit}
    (h : fromConfig config numCpus = .ok cluster) :
    ∃ n, config.numShardsOrCores numCpus = .ok n ∧ isPowerOf2 n := by
  obtain ⟨n, hn, h⟩ := bind_eq_ok.mp h
  refine ⟨n, hn, ?_⟩
  split_ifs at h with hzero hpow
  · cases h
  · cases h
  · simpa using hpow

/-- A table that is keyed by the numbers of the shards has the shard of every client. -/
theorem handleAddConnection_eq {cityhash : List UInt8 → BitVec 128} {numShards : UInt32}
    {shards : ExtTreeMap UInt32 Shard} (hpow : isPowerOf2 numShards) (h : Keyed numShards shards)
    (args : AddSessionArgs) :
    ∃ shard : Shard, shards[Rebalancer.sessionPartition cityhash args.pkt.payload.clientId numShards]? =
        some shard ∧
      handleAddConnection cityhash numShards shards args = (shard.handleAddSession args >>= fun shard =>
        .ok (shards.insert
          (Rebalancer.sessionPartition cityhash args.pkt.payload.clientId numShards) shard)) := by
  have hmem := (h _).mpr
    (Rebalancer.partition_lt hpow (cityhash args.pkt.payload.clientId.val.toUTF8.toList))
  obtain ⟨shard, hshard⟩ := Option.isSome_iff_exists.mp (ExtTreeMap.mem_iff_isSome_getElem?.mp hmem)
  refine ⟨shard, hshard, ?_⟩
  simp only [handleAddConnection, Rebalancer.sessionPartition, hshard]

/-- With every accepted configuration each client has a shard among `0..n`, `handle_add_connection` finds
it after any connections and hands the session to it, and, the hash of the identifier being any of the
2^128, the shards have equally many of them. -/
theorem home_shard {config : ClusterConfig} {numCpus : UInt32} {cluster : ClusterInit}
    (h : fromConfig config numCpus = .ok cluster) (cityhash : List UInt8 → BitVec 128) :
    ∃ n, config.numShardsOrCores numCpus = .ok n ∧
      (∀ id, Rebalancer.sessionPartition cityhash id n < n) ∧
      (∀ (requests : List AddSessionArgs) (shards : ExtTreeMap UInt32 Shard),
        requests.foldlM (handleAddConnection cityhash n) (spawnShards config.toConfig n) =
          .ok shards →
        ∀ args : AddSessionArgs, ∃ shard : Shard,
          shards[Rebalancer.sessionPartition cityhash args.pkt.payload.clientId n]? = some shard ∧
          handleAddConnection cityhash n shards args = (shard.handleAddSession args >>= fun shard =>
            .ok (shards.insert
              (Rebalancer.sessionPartition cityhash args.pkt.payload.clientId n) shard))) ∧
      ∀ (id : ClientID), ∀ k < n,
        {hash | Rebalancer.sessionPartition (fun _ => hash) id n = k}.ncard * n.toNat = 2 ^ 128 := by
  obtain ⟨n, hn, hpow⟩ := isPowerOf2_of_fromConfig h
  refine ⟨n, hn, fun id => Rebalancer.partition_lt hpow _, ?_,
    fun id k => Rebalancer.ncard_partition hpow⟩
  intro requests shards hrun
  have hkeyed : Keyed n shards := foldlM_invariant
    (fun _ _ _ _ hk hs => handleAddConnection_keyed hk hs) (spawnShards_keyed _ n) hrun
  exact handleAddConnection_eq hpow hkeyed

/-- A stand-in for the hash. -/
def byLength (bytes : List UInt8) : BitVec 128 := BitVec.ofNat 128 bytes.length

/-- Four shards. After the first connection the session of the second client goes to the shard 3. -/
theorem home_shard_four :
    ∃ n shards, ({ numShards := some 4 } : ClusterConfig).numShardsOrCores 8 = .ok n ∧
      Rebalancer.sessionPartition byLength ⟨"al"⟩ n = 2 ∧
      Rebalancer.sessionPartition byLength ⟨"bob"⟩ n = 3 ∧
      handleAddConnection byLength n (spawnShards {} n) (Control.plainArgs "al" "10.0.0.1:1") =
        .ok shards ∧
      (∃ shard, shards[(3 : UInt32)]? = some shard ∧
        handleAddConnection byLength n shards (Control.plainArgs "bob" "10.0.0.2:1") =
          (shard.handleAddSession (Control.plainArgs "bob" "10.0.0.2:1") >>= fun shard =>
            .ok (shards.insert 3 shard))) ∧
      {hash | Rebalancer.sessionPartition (fun _ => hash) ⟨"bob"⟩ n = 3}.ncard * n.toNat = 2 ^ 128 := by
  obtain ⟨n, hn, -, hlookup, hcount⟩ := @home_shard { numShards := some 4 } 8
    ⟨"poc-cluster-init", { numShards := some 4 }⟩ rfl byLength
  obtain rfl : 4 = n := Outcome.ok.inj hn
  have hal : Rebalancer.sessionPartition byLength ⟨"al"⟩ 4 = 2 := by decide +kernel
  have hbob : Rebalancer.sessionPartition byLength ⟨"bob"⟩ 4 = 3 := by decide +kernel
  have hok : (handleAddConnection byLength 4 (spawnShards {} 4)
      (Control.plainArgs "al" "10.0.0.1:1")).isOk := by decide +kernel
  obtain ⟨shards, hshards⟩ := exists_of_isOk hok
  have hrun : [Control.plainArgs "al" "10.0.0.1:1"].foldlM (handleAddConnection byLength 4)
      (spawnShards {} 4) = .ok shards := by
    rw [List.foldlM_cons, hshards]
    rfl
  have hsecond := hlookup _ shards hrun (Control.plainArgs "bob" "10.0.0.2:1")
  rw [show (Control.plainArgs "bob" "10.0.0.2:1").pkt.payload.clientId = ⟨"bob"⟩ from rfl,
    hbob] at hsecond
  exact ⟨4, shards, hn, hal, hbob, hshards, hsecond, hcount ⟨"bob"⟩ 3 (by decide)⟩

end ClusterInit
end Mqtr
