import RedkeyOperator.Controller.Robin
import RedkeyOperator.Controller.Config

/-!
# Scaling to zero

`redkey_scale_zero.go`: the reconcile of a Redkey with `primaries = 0`. It has four
cases, decided by the highest-sequence config:

* A: there is none; the scaled-to-zero status is written;
* B: it has `primaries > 0`; a config with `primaries = 0` is created for Robin;
* C: it has `primaries = 0` and is Applied; everything is torn down;
* D: it has `primaries = 0` and Robin is still at it; its status is mirrored.
-/

namespace RedkeyOperator

open Interleaved

/-- What a reconcile asks of the work queue: to be run again after a while, or
not at all if the time is zero. -/
structure Result where
  requeueAfter : ℕ := 0
deriving DecidableEq, Repr

/-- The settings of the reconciler. -/
structure RedkeyReconciler where
  resyncInterval : ℕ

/-- Delete an object that may be gone already. Text is put around any other
error, which the reconcile then ends with. -/
def deleteIfPresent (k : Kind) (key : NamespacedName) (text : String) : Rec Unit := do
  match ← attempt (.delete k key) with
  | .ok _ => pure ()
  | .error .notFound => pure ()
  | .error e => Op.throw (.wrapped text e)

/-- The Deployment goes first: without Robin nobody works on the data plane
any more. -/
def deleteRobinDeployment (cluster : Redkey) : Rec Unit :=
  deleteIfPresent .deployment (robinKey cluster)
    ("deleting Robin Deployment " ++ robinName cluster)

/-- The kind in the error text is the empty string: the objects are built
without type metadata. -/
def deleteRBAC (cluster : Redkey) : Rec Unit := do
  let text := "deleting RBAC resource /" ++ robinName cluster
  deleteIfPresent .roleBinding (robinKey cluster) text
  deleteIfPresent .role (robinKey cluster) text
  deleteIfPresent .serviceAccount (robinKey cluster) text

/-- The delete loop of `deleteAllConfigs`, in the order of the list. It stops
at the first config that cannot be deleted, with the rest still there. -/
def deleteConfigs : List RedkeyConfig → Rec Unit
  | [] => pure ()
  | c :: cs => do
      match ← attempt (.deleteConfig c.key) with
      | .ok _ => deleteConfigs cs
      | .error .notFound => deleteConfigs cs
      | .error e => Op.throw (.wrapped ("deleting config " ++ c.metadata.name) e)

/-- Delete the configs of the cluster, as they are listed; the list is not
sorted. -/
def deleteAllConfigs (cluster : Redkey) : Rec Unit := do
  match ← attempt (.listConfigs cluster.ns clusterLabel cluster.name .deleteAllConfigs) with
  | .ok items => deleteConfigs items
  | .error e => Op.throw (.wrapped "listing configs for deletion" e)

/-- The scaled-to-zero conditions. The health conditions that Robin reported
last are not among them and stay. -/
def scaledToZeroConditions (now : Time) (existing : List Condition) : List Condition :=
  let conditions := setStatusCondition now existing {
    type := "Ready", status := .conditionTrue, reason := "ScaledToZero" }
  let conditions := setStatusCondition now conditions {
    type := "ConfigPending", status := .conditionFalse, reason := "ScaledToZero" }
  setStatusCondition now conditions {
    type := "Error", status := .conditionFalse, reason := "ScaledToZero" }

/-- The status written in cases A and C, over the reconcile's own snapshot.
The recorded topology is kept. -/
def scaledToZeroStatus (now : Time) (cluster : Redkey) : RedkeyStatus :=
  { cluster.status with
    replicas := 0
    phase := .ready
    status := .unset
    substatus := {}
    nodes := some ∅
    lastUpdatedAt := some now
    observedGeneration := cluster.generation
    conditions := scaledToZeroConditions now cluster.status.conditions }

/-- Write the scaled-to-zero status. The write is not tried again after a
conflict; the next reconcile makes another one. -/
def updateStatusScaledToZero (now : Time) (cluster : Redkey) : Rec Redkey :=
  api (.updateRedkeyStatus { cluster with status := scaledToZeroStatus now cluster })

/-- The reconcile of a cluster with `primaries = 0`; returns the caller's copy
of it too. -/
def reconcileScaleToZero (r : RedkeyReconciler) (now : Time) (cluster : Redkey) :
    Rec (Result × Redkey) := do
  let configs ← listConfigs cluster
  match configs.getLast? with
  | none =>
      -- Case A: nothing to tear down.
      let cluster ← updateStatusScaledToZero now cluster
      pure ({ requeueAfter := r.resyncInterval }, cluster)
  | some latestConfig =>
      if latestConfig.spec.primaries ≠ 0 then do
        -- Case B: ask Robin to scale down.
        ensureRBAC cluster
        ensureRobinDeployment cluster
        createNewConfig cluster (some latestConfig)
        pure ({ requeueAfter := r.resyncInterval }, cluster)
      else if latestConfig.status.configPhase = .applied then do
        -- Case C: Robin is done.
        deleteRobinDeployment cluster
        deleteRBAC cluster
        deleteAllConfigs cluster
        let cluster ← updateStatusScaledToZero now cluster
        pure ({ requeueAfter := r.resyncInterval }, cluster)
      else do
        -- Case D: Robin is working.
        ensureRBAC cluster
        ensureRobinDeployment cluster
        let cluster ← aggregateStatus now cluster configs
        pure ({ requeueAfter := r.resyncInterval }, cluster)

end RedkeyOperator
