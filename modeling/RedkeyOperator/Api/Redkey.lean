import RedkeyOperator.Api.Core

/-!
# The operator's own resources

`Redkey` is what the user edits; `RedkeyConfig` is a numbered snapshot of it that the
operator creates and Robin works off. Both follow `api/v1beta1`. Spec fields that the
operator copies without looking inside (`resources`, `override`, `pdb`, Robin's own
settings) are `Value`s, and fields it never reads are left out.
-/

namespace RedkeyOperator

/-- `spec.mode`: a cluster that shares the slots, or one instance on its
own. -/
inductive Mode where
  | cluster
  | standalone
deriving DecidableEq, Repr

/-- The lifecycle of a RedkeyConfig, which Robin drives. Two of the phases are
terminal. -/
inductive ConfigPhase where
  /-- The empty phase of a config Robin has not touched yet. -/
  | unset
  /-- Seen, and waiting for its turn. -/
  | pending
  /-- Being worked off. -/
  | inProgress
  /-- Passed over for a newer one; terminal. -/
  | superseded
  /-- The cluster has its topology; terminal. -/
  | applied
deriving DecidableEq, Repr

/-- The operational status Robin reports; `unset` is the empty string. -/
inductive ClusterStatus where
  | unset
  | initializing
  | configuring
  | ready
  | scalingUp
  | scalingDown
  | scalingToZero
  | upgrading
  | maintenance
  | rebalancing
  | error
  /-- Robin is free to report a text the operator does not know. -/
  | other (text : String)
deriving DecidableEq, Repr

/-- The user-facing phase of a Redkey; `unset` before the first status
write. -/
inductive Phase where
  | unset
  | ready
  | configuring
  | error
deriving DecidableEq, Repr

/-- What Robin is doing in detail. The operator mirrors it and never decides
on it. -/
structure RedkeySubstatus where
  /-- The step of a scaling or an upgrade. -/
  status : String := ""
  /-- The partition that a rolling upgrade has come to. -/
  upgradingPartition : Int := 0
deriving DecidableEq, Repr

/-- A node of the data plane, as Robin sees it. -/
structure RedisNode where
  role : String := ""
  ip : String := ""
  replicationStatus : String := ""
deriving DecidableEq, Repr

/-- The per-node status map; nil and empty differ in the published status. -/
abbrev NodeMap := Option (Finmap fun _ : String => RedisNode)

/-! ## Robin's part of the spec -/

/-- What a user may override in Robin's pod. An empty field overrides
nothing. -/
structure PartialPodSpec where
  /-- Only the first one counts: it overrides Robin's container. -/
  containers : List Container := []
  nodeSelector : StringMap := ∅
  securityContext : Option Value := none
  imagePullSecrets : List Value := []
  affinity : Option Value := none
  tolerations : List Value := []
  priorityClassName : String := ""
  topologySpreadConstraints : List Value := []
  volumes : List Value := []

/-- The override with its own labels and annotations. -/
structure PartialPodTemplateSpec where
  labels : StringMap := ∅
  annotations : StringMap := ∅
  spec : PartialPodSpec := {}

/-- What a Redkey says about Robin. -/
structure RobinSpec where
  /-- The image of Robin's container, unless the template has another. -/
  image : String := ""
  resources : Option ResourceRequirements := none
  template : Option PartialPodTemplateSpec := none
  /-- The settings of Robin itself, handed over in the config. -/
  config : Option Value := none

/-! ## Redkey -/

/-- What the user asks for. The defaults are those of the resource
definition. -/
structure RedkeySpec where
  auth : String := ""
  version : String := ""
  mode : Mode := .cluster
  /-- Zero means that the cluster is scaled to zero. -/
  primaries : Int
  replicasPerPrimary : Int := 0
  image : String := ""
  deletePVC : Option Bool := some false
  robin : RobinSpec := {}
  /-- Whether Robin may pass over a config when a newer one is waiting. -/
  skipIfSuperseded : Bool := true
  purgeKeysOnRebalance : Option Bool := some true
  config : String := ""
  resources : Option Value := none
  /-- Go onto every object made for the cluster; the operator's own take
  precedence. -/
  labels : Option StringMap := none
  annotations : Option StringMap := none
  pdb : Value := .struct []
  /-- Overrides of the data plane's objects, which are Robin's business. -/
  override : Option Value := none
  /-- Without storage; such a cluster loses its data at zero, and nothing is
  put on record for it. -/
  ephemeral : Bool := true
  storage : String := ""
  storageClassName : String := ""
  accessModes : List String := ["ReadWriteOnce"]

/-- What the operator publishes about a cluster: a summary of the configs and
of Robin's reports. -/
structure RedkeyStatus where
  /-- The primaries, for the scale subresource. -/
  replicas : Int := 0
  /-- A summary, derived from the conditions. -/
  phase : Phase := .unset
  status : ClusterStatus := .unset
  substatus : RedkeySubstatus := {}
  nodes : NodeMap := none
  /-- The operator's own conditions, and Robin's health conditions. -/
  conditions : List Condition := []
  lastUpdatedAt : Option Time := none
  /-- The generation that the reconcile of the last status write has read. -/
  observedGeneration : Int := 0
  /-- The last applied topology with primaries, which admission demands back
  when a cluster with storage comes up from zero. It is never cleared. -/
  lastAppliedPrimaries : Int := 0
  lastAppliedReplicasPerPrimary : Int := 0
deriving DecidableEq

/-- A cluster, as the user wants it and as it was last seen. -/
structure Redkey where
  ns : String
  name : String
  generation : Int := 1
  resourceVersion : Nat := 1
  spec : RedkeySpec
  status : RedkeyStatus := {}

/-- The key of the Redkey. -/
def Redkey.key (cluster : Redkey) : NamespacedName := ⟨cluster.ns, cluster.name⟩

/-! ## RedkeyConfig -/

/-- A snapshot of a spec. Nobody changes it after it was created. -/
structure RedkeyConfigSpec where
  /-- Robin works the configs off in this order. -/
  sequence : Int
  skipIfSuperseded : Bool := false
  mode : Mode := .cluster
  primaries : Int
  replicasPerPrimary : Int := 0
  ephemeral : Bool := false
  storage : String := ""
  storageClassName : String := ""
  image : String := ""
  version : String := ""
  redisConfig : String := ""
  resources : Option Value := none
  auth : String := ""
  labels : Option StringMap := none
  annotations : Option StringMap := none
  deletePVC : Option Bool := none
  purgeKeysOnRebalance : Option Bool := none
  override : Option Value := none
  pdb : Value := .struct []
  robinConfig : Option Value := none

/-- The status of a config. It is written by Robin alone, and the operator
only reads it. -/
structure RedkeyConfigStatus where
  configPhase : ConfigPhase := .unset
  /-- The rest is mirrored into the status of the Redkey. -/
  status : ClusterStatus := .unset
  substatus : RedkeySubstatus := {}
  nodes : NodeMap := none
  conditions : List Condition := []
deriving DecidableEq

/-- A numbered snapshot of a Redkey. Its annotations say which generation it
was made for. -/
structure RedkeyConfig where
  metadata : ObjectMeta
  spec : RedkeyConfigSpec
  status : RedkeyConfigStatus := {}

/-- The key of the config. -/
def RedkeyConfig.key (c : RedkeyConfig) : NamespacedName := c.metadata.key

/-- A cluster of three primaries, for concrete runs. -/
def sampleCluster : Redkey where
  ns := "cache"
  name := "c"
  spec := { primaries := 3 }

/-- A cluster with storage, and three primaries with a replica each. -/
def persistentCluster : Redkey :=
  { sampleCluster with
    spec := {
      primaries := 3, replicasPerPrimary := 1, ephemeral := false, storage := "1Gi"
      purgeKeysOnRebalance := some false } }

end RedkeyOperator
