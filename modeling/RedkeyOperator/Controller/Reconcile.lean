import RedkeyOperator.Controller.ScaleZero

/-!
# The reconcile loop

`redkey_controller.go`: one reconcile of a Redkey. It reads the Redkey once and works
on that snapshot.
-/

namespace RedkeyOperator

open Interleaved

/-- A new config when there is none or the generation moved on, and the list
after it. -/
def ensureConfig (cluster : Redkey) (configs : List RedkeyConfig) : Rec (List RedkeyConfig) :=
  if configs.isEmpty ∨ needsNewConfig cluster configs.getLast? then do
    staged .createNewConfig (createNewConfig cluster configs.getLast?)
    -- listed once more, so that the new config is among those that follow
    staged .listConfigs (listConfigs cluster)
  else pure configs

/-- Clean up and aggregate; nothing to do without configs. An error of the
cleanup ends the reconcile before any status is written. -/
def settleConfigs (now : Time) (cluster : Redkey) (configs : List RedkeyConfig) :
    Rec (Redkey × List RedkeyConfig) :=
  if configs.isEmpty then pure (cluster, configs)
  else do
    let kept ← staged .cleanupSupersededConfigs do
      let (kept, err) ← cleanupSupersededConfigs configs
      match err with
      | none => pure kept
      | some e => Op.throw e
    let cluster ← staged .aggregateStatus (aggregateStatus now cluster kept)
    pure (cluster, kept)

/-- The reconcile of a cluster with `primaries ≠ 0`: Robin's objects, a config
if one is due, cleanup, and the status. -/
def reconcileConfigs (r : RedkeyReconciler) (now : Time) (cluster : Redkey) : Rec Result := do
  staged .ensureRBAC (ensureRBAC cluster)
  staged .ensureRobinDeployment (ensureRobinDeployment cluster)
  let configs ← staged .listConfigs (listConfigs cluster)
  let configs ← ensureConfig cluster configs
  let (cluster, configs) ← settleConfigs now cluster configs
  metric (.recordRedkeyMetrics cluster (selectActiveConfig configs))
  pure { requeueAfter := r.resyncInterval }

/-- `Reconcile`: one reconcile of the Redkey with the key. Its result says
when to come back; an error is retried by the queue. -/
def reconcile (r : RedkeyReconciler) (now : Time) (req : NamespacedName) : Rec Result := do
  match ← attempt (.getRedkey req .reconcile) with
  -- => deleted: its objects go with their owner
  | .error .notFound =>
      metric (.deleteRedkeyMetrics req)
      pure {}
  | .error e =>
      metric (.stageError .getCluster)
      Op.throw (.api e)
  | .ok cluster =>
      if (cluster : Redkey).spec.primaries = 0 then do
        let (res, cluster) ← staged .scaleToZero (reconcileScaleToZero r now cluster)
        metric (.recordRedkeyMetrics cluster none)
        pure res
      else reconcileConfigs r now cluster

/-- The reconciles of one Redkey, with any settings and at any time. -/
def Reconciles (key : NamespacedName) (p : Rec Result) : Prop :=
  ∃ r now, p = reconcile r now key

/-- The status write that is about to be made, if one is. Witnesses stop a run
at such a point to look at what is written. -/
def nextWrite : Option (Rec Result) → Option Redkey
  | some (.call (.updateRedkeyStatus cluster) _) => some cluster
  | _ => none

theorem nextWrite_eq {t : Option (Rec Result)} {cluster : Redkey} (h : nextWrite t = some cluster) :
    ∃ k, t = some (.call (.updateRedkeyStatus cluster) k) := by
  unfold nextWrite at h
  split at h
  case h_1 k =>
    cases h
    exact ⟨k, rfl⟩
  case h_2 => cases h

/-- A run that has come to a status write. -/
theorem reachable_nextWrite {σ : Type} {M : Sem Call Resp σ} {entry : Rec Result → Prop}
    {init : σ → Prop} {m : Machine Call Resp (Except Err Result) σ} {cluster : Redkey}
    (hm : Reachable M entry init m) (h : nextWrite m.thread = some cluster) :
    ∃ k, m.thread = some (.call (.updateRedkeyStatus cluster) k) ∧
      Reachable M entry init ⟨m.shared, some (.call (.updateRedkeyStatus cluster) k)⟩ := by
  obtain ⟨k, hk⟩ := nextWrite_eq h
  exact ⟨k, hk, hk ▸ hm⟩

end RedkeyOperator
