/-
# `Dolda.PersistQ.Config` — what a queue may be configured as

`PersistQConfig` of `src/persistq.rs` and its `validate_config`, which refuses
with the message of the first check that fails (`checks`).  `Valid` is what the
checks come to (`validateConfig_ok_iff`).
-/
import Mathlib.Data.List.Infix
import Mathlib.Tactic.Common

namespace Dolda.PersistQ

/-- A double, as far as comparisons tell: a rational number, an infinity, or not
a number. -/
inductive F64 where
  | finite (value : Rat)
  | infinite (negative : Bool)
  | nan
deriving DecidableEq

/-- `x < y`, which nothing is with `nan`. -/
def F64.lt : F64 → F64 → Bool
  | .finite x, .finite y => decide (x < y)
  | .finite _, .infinite negative => !negative
  | .infinite negative, .finite _ => negative
  | .infinite negative, .infinite negative' => negative && !negative'
  | .nan, _ => false
  | _, .nan => false

structure CacheConfig where
  enabled : Bool
  sizeBytes : Nat
  hotDataThreshold : F64
deriving DecidableEq

structure PersistQConfig where
  storageDir : String
  segmentSize : Nat
  numPartitions : Nat
  replicationFactor : Nat
  cacheConfig : CacheConfig
deriving DecidableEq

namespace PersistQConfig

/-- The configuration of `Default`; the threshold is the double nearest 0.1. -/
def default : PersistQConfig where
  storageDir := "/tmp/persistq"
  segmentSize := 64 * 1024 * 1024
  numPartitions := 8
  replicationFactor := 3
  cacheConfig :=
    { enabled := true
      sizeBytes := 512 * 1024 * 1024
      hotDataThreshold := .finite (3602879701896397 / 36028797018963968) }

/-- 1KB. -/
def minSegmentSize : Nat := 1024

/-- 10GB. -/
def maxSegmentSize : Nat := 10 * 1024 * 1024 * 1024

/-- The checks of `validate_config`, in order: what is refused, and how. -/
def checks (config : PersistQConfig) : List (Bool × String) :=
  [ (config.numPartitions == 0, "num_partitions must be greater than 0"),
    (decide (1024 < config.numPartitions), "num_partitions must be at most 1024"),
    (decide (config.segmentSize < minSegmentSize),
      "segment_size must be at least " ++ toString minSegmentSize ++ " bytes"),
    (decide (maxSegmentSize < config.segmentSize),
      "segment_size must be at most " ++ toString maxSegmentSize ++ " bytes"),
    (config.replicationFactor == 0, "replication_factor must be greater than 0"),
    (decide (10 < config.replicationFactor), "replication_factor must be at most 10"),
    (config.storageDir.isEmpty, "storage_dir cannot be empty"),
    (decide (['.', '.'] <:+: config.storageDir.toList),
      "storage_dir cannot contain '..' (directory traversal)"),
    (decide (Char.ofNat 0 ∈ config.storageDir.toList), "storage_dir cannot contain null bytes"),
    (config.cacheConfig.hotDataThreshold.lt (.finite 0) ||
        F64.lt (.finite 1) config.cacheConfig.hotDataThreshold,
      "hot_data_threshold must be between 0.0 and 1.0") ]

def validateConfig (config : PersistQConfig) : Except String Unit :=
  match config.checks.find? (fun check => check.1) with
  | some check => .error check.2
  | none => .ok ()

/-- What a configuration that is accepted meets.  A threshold that is not a
number is accepted. -/
structure Valid (config : PersistQConfig) : Prop where
  numPartitions_pos : 0 < config.numPartitions
  numPartitions_le : config.numPartitions ≤ 1024
  segmentSize_ge : minSegmentSize ≤ config.segmentSize
  segmentSize_le : config.segmentSize ≤ maxSegmentSize
  replicationFactor_pos : 0 < config.replicationFactor
  replicationFactor_le : config.replicationFactor ≤ 10
  storageDir_nonempty : config.storageDir ≠ ""
  storageDir_inside : ¬ ['.', '.'] <:+: config.storageDir.toList
  storageDir_nonnull : Char.ofNat 0 ∉ config.storageDir.toList
  threshold_nonneg : config.cacheConfig.hotDataThreshold.lt (.finite 0) = false
  threshold_le_one : F64.lt (.finite 1) config.cacheConfig.hotDataThreshold = false

/-- **A configuration is accepted iff it is valid.** -/
theorem validateConfig_ok_iff (config : PersistQConfig) :
    config.validateConfig = .ok () ↔ config.Valid := by
  have hfind : config.validateConfig = .ok () ↔ ∀ check ∈ config.checks, check.1 = false := by
    rw [validateConfig]
    split
    · rename_i check hsome
      have hcheck : check.1 = true := List.find?_some hsome
      refine ⟨nofun, ?_⟩
      intro h
      rw [h check (List.mem_of_find?_eq_some hsome)] at hcheck
      cases hcheck
    · rename_i hnone
      refine ⟨?_, fun _ => rfl⟩
      intro _ check hmem
      exact Bool.not_eq_true _ ▸ List.find?_eq_none.mp hnone check hmem
  rw [hfind]
  simp only [checks, List.forall_mem_cons, List.not_mem_nil, false_imp_iff, implies_true,
    and_true, beq_eq_false_iff_ne, decide_eq_false_iff_not, Nat.not_lt, Bool.or_eq_false_iff]
  constructor
  · rintro ⟨hpos, hle, hmin, hmax, hrpos, hrle, hdir, hinside, hnull, hneg, hone⟩
    exact ⟨Nat.pos_of_ne_zero hpos, hle, hmin, hmax, Nat.pos_of_ne_zero hrpos, hrle,
      by simpa using hdir, hinside, hnull, hneg, hone⟩
  · rintro ⟨hpos, hle, hmin, hmax, hrpos, hrle, hdir, hinside, hnull, hneg, hone⟩
    exact ⟨hpos.ne', hle, hmin, hmax, hrpos.ne', hrle, by simpa using hdir, hinside, hnull,
      hneg, hone⟩

/-- The fields that are checked, by the source's names. -/
def fieldNames : List String :=
  ["num_partitions", "segment_size", "replication_factor", "storage_dir", "hot_data_threshold"]

/-- A refusal names the field it is about. -/
theorem validateConfig_error_names {config : PersistQConfig} {message : String}
    (h : config.validateConfig = .error message) :
    ∃ field ∈ fieldNames, field.toList <+: message.toList := by
  have hmem : message ∈ config.checks.map Prod.snd := by
    simp only [validateConfig] at h
    split at h
    · rename_i check hsome
      cases h
      exact List.mem_map_of_mem (List.mem_of_find?_eq_some hsome)
    · cases h
  -- the messages are the same for every configuration
  have hnames : ∀ message ∈ default.checks.map Prod.snd,
      ∃ field ∈ fieldNames, field.toList <+: message.toList := by
    decide +kernel
  exact hnames message hmem

instance (config : PersistQConfig) : Decidable config.Valid :=
  decidable_of_iff _ config.validateConfig_ok_iff

/-- The configuration of `Default` is accepted. -/
theorem default_valid : default.Valid := by
  decide +kernel

end PersistQConfig

end Dolda.PersistQ
