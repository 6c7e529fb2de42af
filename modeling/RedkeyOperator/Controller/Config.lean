import RedkeyOperator.Controller.Metadata
import Mathlib.Data.List.Sort

/-!
# RedkeyConfigs

`redkey_config.go`: listing the configs of a cluster, deciding whether the current
generation needs a new one, creating it, deleting the ones that are superseded, and
mirroring the active one's status onto the Redkey.

A Go function that returns both a list and an error keeps both here
(`cleanupSupersededConfigs`). The clock is read once per reconcile and passed down
as `now`.
-/

namespace RedkeyOperator

open Interleaved

/-! ## Listing and creating -/

/-- `sort.Slice` by sequence, ascending. The source's sort is not stable,
which makes no difference where sequences are unique. -/
def sortBySequence (items : List RedkeyConfig) : List RedkeyConfig :=
  items.insertionSort fun a b => a.spec.sequence ≤ b.spec.sequence

/-- The configs of the cluster, by sequence. They are selected by the cluster
label in the Redkey's namespace, not by their owner. -/
def listConfigs (cluster : Redkey) : Rec (List RedkeyConfig) := do
  let items ← api (.listConfigs cluster.ns clusterLabel cluster.name .listConfigs)
  pure (sortBySequence items)

/-- The generation a config was created for, as its annotation records it.
Nothing is known if there is no annotation or it is not a number. -/
def RedkeyConfig.generation? (config : RedkeyConfig) : Option Int :=
  match config.metadata.annotations.lookup generationAnnotation with
  | none => none
  | some genStr => if genStr ≠ "" then Decimal.parseInt genStr else none

/-- Is a new config needed for the current generation? The annotation of the
latest config decides; the observed generation comes second. -/
def needsNewConfig (cluster : Redkey) (latestConfig : Option RedkeyConfig) : Bool :=
  match latestConfig.bind RedkeyConfig.generation? with
  | some parsedGen =>
      if cluster.generation ≤ parsedGen then false
      else cluster.status.observedGeneration < cluster.generation
  | none => cluster.status.observedGeneration < cluster.generation

/-- The sequence number that follows the highest one. -/
def nextSequence (highestSeq : Option RedkeyConfig) : Int :=
  match highestSeq with
  | some highest => highest.spec.sequence + 1
  | none => 1

/-- The config `createNewConfig` builds: a snapshot of the spec. The
generation it stands for is recorded in an annotation, and the Redkey becomes
its controller. -/
def newConfig (cluster : Redkey) (highestSeq : Option RedkeyConfig) : RedkeyConfig where
  metadata := {
    ns := cluster.ns
    name := Decimal.dashed cluster.name (nextSequence highestSeq)
    labels := mergeMeta (derefMap cluster.spec.labels) ∅
      ((∅ : StringMap).insert clusterLabel cluster.name)
    annotations := mergeMeta (derefMap cluster.spec.annotations) ∅
      ((∅ : StringMap).insert generationAnnotation (Decimal.formatInt cluster.generation))
    controller := some cluster.name }
  spec := {
    sequence := nextSequence highestSeq
    skipIfSuperseded := cluster.spec.skipIfSuperseded
    mode := cluster.spec.mode
    primaries := cluster.spec.primaries
    replicasPerPrimary := cluster.spec.replicasPerPrimary
    ephemeral := cluster.spec.ephemeral
    storage := cluster.spec.storage
    storageClassName := cluster.spec.storageClassName
    image := cluster.spec.image
    version := cluster.spec.version
    redisConfig := cluster.spec.config
    resources := cluster.spec.resources
    auth := cluster.spec.auth
    labels := cluster.spec.labels
    annotations := cluster.spec.annotations
    deletePVC := cluster.spec.deletePVC
    purgeKeysOnRebalance := cluster.spec.purgeKeysOnRebalance
    override := cluster.spec.override
    pdb := cluster.spec.pdb
    robinConfig := cluster.spec.robin.config }

/-- Create the next config. A config that is already there counts as
created. -/
def createNewConfig (cluster : Redkey) (highestSeq : Option RedkeyConfig) : Rec Unit := do
  match ← attempt (.createConfig (newConfig cluster highestSeq)) with
  | .ok _ => metric (.configCreation (if highestSeq.isSome then .generationChange else .initial))
  -- the list was outdated, and an earlier reconcile has created it
  | .error .alreadyExists => pure ()
  | .error e => Op.throw (.api e)

/-! ## Phases and conditions -/

/-- Robin is done with the config, whether it was applied or passed over. -/
def isTerminalConfigPhase (phase : ConfigPhase) : Bool :=
  phase = .applied ∨ phase = .superseded

/-- It is done, and the cluster is not in error. -/
def isConfigReady (config : RedkeyConfig) : Bool :=
  isTerminalConfigPhase config.status.configPhase ∧ config.status.status ≠ .error

/-- It is done, and the cluster is in error. What a config in progress reports
does not count. -/
def hasConfigError (config : RedkeyConfig) : Bool :=
  isTerminalConfigPhase config.status.configPhase ∧ config.status.status = .error

/-- A condition that the operator can tell: it is never `Unknown`. -/
def conditionStatus (b : Bool) : ConditionStatus :=
  if b then .conditionTrue else .conditionFalse

/-- The config whose status is mirrored: the only one, or the first one in
progress, or else the first one of the list. -/
def selectActiveConfig (configs : List RedkeyConfig) : Option RedkeyConfig :=
  if configs.length = 1 then configs.head?
  else configs.find? (fun c => c.status.configPhase = .inProgress) <|> configs.head?

/-- The conditions Robin reports on the data plane, in the order in which they
are mirrored. -/
def healthConditionTypes : List String :=
  ["Healthy", "MembershipHealthy", "SlotsCovered", "SlotsBalanced", "ReplicasBalanced",
    "ClusterCheckPassing"]

/-- The health condition published for a type: Robin's, when the config has
settled, and `Unknown` otherwise. -/
def healthCondition (activeConfig : RedkeyConfig) (condType : String) : Condition :=
  let settled := isTerminalConfigPhase activeConfig.status.configPhase ∧
    activeConfig.status.status = .ready
  let unknown : Condition :=
    { type := condType, status := .conditionUnknown, reason := "Reconciling" }
  if settled then
    match findStatusCondition activeConfig.status.conditions condType with
    | some src =>
        { type := condType, status := src.status, reason := src.reason, message := src.message }
    | none => unknown
  else unknown

/-- Mirror the health conditions of the active config. -/
def aggregateHealthConditions (now : Time) (conditions : List Condition)
    (activeConfig : RedkeyConfig) : List Condition :=
  healthConditionTypes.foldl
    (fun cs condType => setStatusCondition now cs (healthCondition activeConfig condType))
    conditions

/-- The operator's own three conditions, and then those of Robin's. -/
def aggregateConditions (now : Time) (existing : List Condition) (config : RedkeyConfig) :
    List Condition :=
  let conditions := setStatusCondition now existing {
    type := "Ready"
    status := conditionStatus (isConfigReady config)
    reason := "StatusAggregated" }
  let conditions := setStatusCondition now conditions {
    type := "ConfigPending"
    status := conditionStatus (!isTerminalConfigPhase config.status.configPhase)
    reason := "StatusAggregated" }
  let conditions := setStatusCondition now conditions {
    type := "Error"
    status := conditionStatus (hasConfigError config)
    reason := "StatusAggregated" }
  aggregateHealthConditions now conditions config

/-- Is the condition of the type there and true? -/
def conditionHolds (conditions : List Condition) (type : String) : Bool :=
  match findStatusCondition conditions type with
  | some c => c.status = .conditionTrue
  | none => false

/-- The user-facing phase. `Error` goes before `Ready`, and without either the
cluster is being configured. -/
def computePhaseFromConditions (conditions : List Condition) : Phase :=
  if conditionHolds conditions "Error" then .error
  else if conditionHolds conditions "Ready" then .ready
  else .configuring

/-- The field is required, so nil is not published. -/
def emptyNodesIfNil (nodes : NodeMap) : NodeMap := some (nodes.getD ∅)

/-! ## Status -/

/-- The guard of the topology record: only a cluster with storage, and only a
topology that was applied and has primaries. -/
def recordsTopology (latest : Redkey) (activeConfig : RedkeyConfig) : Bool :=
  !latest.spec.ephemeral ∧ activeConfig.status.configPhase = .applied ∧
    0 < activeConfig.spec.primaries

/-- The status `aggregateStatus` writes over the re-read object. The observed
generation is the one of the reconcile's snapshot, not the re-read one. -/
def aggregatedStatus (now : Time) (observedGeneration : Int) (latest : Redkey)
    (activeConfig : RedkeyConfig) : RedkeyStatus :=
  let conditions := aggregateConditions now latest.status.conditions activeConfig
  { replicas := latest.spec.primaries
    status := activeConfig.status.status
    substatus := activeConfig.status.substatus
    nodes := emptyNodesIfNil activeConfig.status.nodes
    conditions := conditions
    phase := computePhaseFromConditions conditions
    lastUpdatedAt := some now
    observedGeneration := observedGeneration
    lastAppliedPrimaries :=
      if recordsTopology latest activeConfig then activeConfig.spec.primaries
      else latest.status.lastAppliedPrimaries
    lastAppliedReplicasPerPrimary :=
      if recordsTopology latest activeConfig then activeConfig.spec.replicasPerPrimary
      else latest.status.lastAppliedReplicasPerPrimary }

/-- `retry.RetryOnConflict`: try again as long as the attempt ends with a
conflict and there are steps left. -/
def retryOnConflict {α : Type} : ℕ → Rec α → Rec α
  | 0, fn => fn
  | steps + 1, fn => fn.catchError fun
      | .api .conflict => retryOnConflict steps fn
      | e => Op.throw e

/-- The retries after the first attempt of `retry.DefaultRetry`, which makes
five. -/
def defaultRetry : ℕ := 4

/-- Mirror the active config's status; returns the caller's copy of the
cluster, with the status that was persisted. -/
def aggregateStatus (now : Time) (cluster : Redkey) (configs : List RedkeyConfig) : Rec Redkey :=
  match selectActiveConfig configs with
  | none => pure cluster
  | some activeConfig =>
      retryOnConflict defaultRetry do
        -- the active config is not read again, only the Redkey is
        let latest ← api (.getRedkey cluster.key .aggregateStatus)
        let persisted ← api (.updateRedkeyStatus { latest with
          status := aggregatedStatus now cluster.generation latest activeConfig })
        pure { cluster with status := persisted.status }

/-! ## Cleanup -/

/-- The index of the last Applied config. The source walks backwards from the
end of the list. -/
def lastApplied : List RedkeyConfig → Option ℕ
  | [] => none
  | c :: cs =>
      match lastApplied cs with
      | some i => some (i + 1)
      | none => if c.status.configPhase = .applied then some 0 else none

/-- Delete the configs of `old`; `kept` follows them in the list. On an error
the result is the rest of the list, from the config that could not be deleted
on. -/
def deleteSuperseded : List RedkeyConfig → List RedkeyConfig → Rec (List RedkeyConfig × Option Err)
  | [], kept => pure (kept, none)
  | c :: old, kept => do
      match ← attempt (.deleteConfig c.key) with
      | .ok _ =>
          metric .cleanupDeletedConfig
          deleteSuperseded old kept
      -- already gone, and not counted as a deletion
      | .error .notFound => deleteSuperseded old kept
      | .error e => pure (c :: old ++ kept, some (.api e))

/-- What is left of a list once the configs older than the last Applied one
are gone. -/
def afterCleanup (configs : List RedkeyConfig) : List RedkeyConfig :=
  if configs.length ≤ 1 then configs
  else
    match lastApplied configs with
    | none => configs
    | some i => configs.drop i

/-- Delete every config older than the last Applied one, whatever its phase.
The list that is returned goes with the error: it is what the caller would
still see. -/
def cleanupSupersededConfigs (configs : List RedkeyConfig) :
    Rec (List RedkeyConfig × Option Err) :=
  if configs.length ≤ 1 then pure (configs, none)
  else
    match lastApplied configs with
    | none => pure (configs, none)
    | some i => deleteSuperseded (configs.take i) (configs.drop i)

end RedkeyOperator
