import RedkeyOperator.Api.Server
import RedkeyOperator.Lib.Decimal

/-!
# Shared parts of the controller

The program type of the controller, its errors, and the metadata helpers. The
user's labels and annotations are merged under the operator's own ones
(`mergeMeta`), so that a reserved key always has the operator's value
(`lookup_mergeMeta_of_mem`).
-/

namespace RedkeyOperator

open Interleaved

/-- The errors a reconcile ends with: a failed request, or one with text
around it. They are logged and lead to a retry; nobody takes them apart any
further. -/
inductive Err where
  | api (e : ApiError)
  | wrapped (text : String) (e : ApiError)
deriving DecidableEq, Repr

/-- Programs of the controller: they issue requests and end with a value or an
error. -/
abbrev Rec := Op Call Resp Err

/-- Issue a request and look at its outcome, which may be a failure that is
part of the plan. -/
def attempt (c : Call) : Rec (Resp c) := Op.request c

/-- Issue a request; its failure ends the program. -/
def api (c : Call) : Rec (Payload c) := do
  match ← attempt c with
  | .ok a => pure a
  | .error e => Op.throw (.api e)

/-- Update a metric. -/
def metric (event : MetricEvent) : Rec Unit := do
  let _ ← attempt (.metric event)
  pure ()

/-- Count a failure of `p` under its stage before passing it on. The counter
is the only trace of it; the error itself is unchanged. -/
def staged {α : Type} (stage : Stage) (p : Rec α) : Rec α :=
  p.catchError fun e => do
    metric (.stageError stage)
    Op.throw e

/-! ## Labels and annotations -/

/-- `ClusterLabel`, under which everything that belongs to a cluster is
found. -/
def clusterLabel : String := "redkey.inditex.dev/cluster"

/-- The component an object belongs to. -/
def componentLabel : String := "redkey.inditex.dev/component"

/-- The generation of the Redkey that a config was created for. -/
def generationAnnotation : String := "redkey.inditex.dev/cluster-generation"

/-- The map pointed to, or nil. -/
def derefMap (m : Option StringMap) : StringMap := m.getD ∅

/-- The user's entries (`override` replaces `spec` as a whole when it has
any), with the entries of `base` on top. -/
def mergeMeta (spec override base : StringMap) : StringMap :=
  base ∪ (if override ≠ ∅ then override else spec)

theorem lookup_mergeMeta_of_mem {spec override base : StringMap} {k : String} (h : k ∈ base) :
    (mergeMeta spec override base).lookup k = base.lookup k :=
  Finmap.lookup_union_left h

/-- The name of Robin's Deployment, ServiceAccount, Role and RoleBinding. -/
def robinName (cluster : Redkey) : String := cluster.name ++ "-robin"

/-- The four objects share one key, in the namespace of the cluster. -/
def robinKey (cluster : Redkey) : NamespacedName := ⟨cluster.ns, robinName cluster⟩

/-- The key of the Robin objects of the Redkey with the key. -/
def robinKeyOf (key : NamespacedName) : NamespacedName := ⟨key.ns, key.name ++ "-robin"⟩

/-- The labels of Robin's objects, which are also the selector of its
Deployment. -/
def robinBaseLabels (cluster : Redkey) : StringMap :=
  ((∅ : StringMap).insert componentLabel "robin").insert clusterLabel cluster.name

end RedkeyOperator
