import RedkeyOperator.Controller.Metadata

/-!
# Robin's objects

`redkey_robin.go`: the ServiceAccount, Role, RoleBinding and Deployment that Robin
runs on. Each is read, created when it is missing, and repaired when it has drifted
from what the spec asks for. Labels, annotations, rules and subjects are compared
exactly; the pod spec is compared one-sidedly, so that what the API server filled in
does not count as drift.
-/

namespace RedkeyOperator

open Interleaved

/-- Read an object and go on with it, or without it when it does not exist.
Any other failure of the read ends the program. -/
def withExisting (k : Kind) (key : NamespacedName) (absent : Rec Unit)
    (present : Obj k → Rec Unit) : Rec Unit := do
  match ← attempt (.get k key) with
  | .ok existing => present existing
  | .error .notFound => absent
  | .error e => Op.throw (.api e)

/-! ## RBAC -/

/-- `DesiredRobinRules`: what Robin may do. The API server lets the operator
hand out no more than it has itself. -/
def desiredRobinRules : List PolicyRule := [
  { apiGroups := ["apps"], resources := ["statefulsets"],
    verbs := ["get", "list", "watch", "create", "update", "patch", "delete"] },
  { apiGroups := [""], resources := ["services", "configmaps"],
    verbs := ["get", "list", "watch", "create", "update", "patch", "delete"] },
  { apiGroups := [""], resources := ["pods"],
    verbs := ["get", "list", "watch", "delete"] },
  { apiGroups := [""], resources := ["persistentvolumeclaims"],
    verbs := ["list", "delete"] },
  { apiGroups := ["policy"], resources := ["poddisruptionbudgets"],
    verbs := ["get", "list", "watch", "create", "update", "patch", "delete"] },
  { apiGroups := [""], resources := ["secrets"],
    verbs := ["get"] },
  { apiGroups := ["redkey.inditex.dev"], resources := ["redkeys"],
    verbs := ["get"] },
  { apiGroups := ["redkey.inditex.dev"], resources := ["redkeyconfigs"],
    verbs := ["get", "list", "watch"] },
  { apiGroups := ["redkey.inditex.dev"], resources := ["redkeyconfigs/status"],
    verbs := ["update", "patch"] }]

/-- The metadata of the three RBAC objects. The controller reference is set on
an object that has no owner yet, so setting it cannot fail. -/
def rbacMeta (cluster : Redkey) : ObjectMeta where
  ns := cluster.ns
  name := robinName cluster
  labels := mergeMeta (derefMap cluster.spec.labels) ∅ (robinBaseLabels cluster)
  annotations := mergeMeta (derefMap cluster.spec.annotations) ∅ ∅
  controller := some cluster.name

/-- The account Robin runs under. -/
def desiredSA (cluster : Redkey) : ServiceAccount where
  metadata := rbacMeta cluster

/-- What Robin may do. -/
def desiredRole (cluster : Redkey) : Role where
  metadata := rbacMeta cluster
  rules := desiredRobinRules

/-- The binding of the account to the role. -/
def desiredRB (cluster : Redkey) : RoleBinding where
  metadata := rbacMeta cluster
  subjects := [{ kind := "ServiceAccount", name := robinName cluster, ns := cluster.ns }]
  roleRef := { apiGroup := "rbac.authorization.k8s.io", kind := "Role", name := robinName cluster }

/-- The existing metadata with the desired labels and annotations. -/
def ObjectMeta.relabel (existing desired : ObjectMeta) : ObjectMeta :=
  { existing with labels := desired.labels, annotations := desired.annotations }

/-- Labels or annotations differ. -/
def ObjectMeta.drifted (existing desired : ObjectMeta) : Bool :=
  existing.labels ≠ desired.labels ∨ existing.annotations ≠ desired.annotations

/-- Create or repair the account. It has nothing but metadata that can
drift. -/
def ensureServiceAccount (cluster : Redkey) : Rec Unit :=
  withExisting .serviceAccount (robinKey cluster)
    (api (.create .serviceAccount (desiredSA cluster)))
    fun (existing : ServiceAccount) =>
      if existing.metadata.drifted (rbacMeta cluster) then
        let patched : ServiceAccount := { metadata := existing.metadata.relabel (rbacMeta cluster) }
        api (.patch .serviceAccount patched)
      else pure ()

/-- Create or repair the role. The rules are compared as a list, so another
order counts as drift. -/
def ensureRole (cluster : Redkey) : Rec Unit :=
  withExisting .role (robinKey cluster)
    (api (.create .role (desiredRole cluster)))
    fun (existing : Role) =>
      if existing.rules ≠ desiredRobinRules ∨ existing.metadata.drifted (rbacMeta cluster) then
        let patched : Role := {
          metadata := existing.metadata.relabel (rbacMeta cluster)
          rules := desiredRobinRules }
        api (.patch .role patched)
      else pure ()

/-- The role reference is immutable, so a binding with another one is
replaced. -/
def ensureRoleBinding (cluster : Redkey) : Rec Unit :=
  withExisting .roleBinding (robinKey cluster)
    (api (.create .roleBinding (desiredRB cluster)))
    fun (existing : RoleBinding) =>
      -- two requests: between them there is no binding at all
      if existing.roleRef ≠ (desiredRB cluster).roleRef then do
        api (.delete .roleBinding existing.metadata.key)
        api (.create .roleBinding (desiredRB cluster))
      else if existing.subjects ≠ (desiredRB cluster).subjects ∨
          existing.metadata.drifted (rbacMeta cluster) then
        let patched : RoleBinding := { existing with
          metadata := existing.metadata.relabel (rbacMeta cluster)
          subjects := (desiredRB cluster).subjects }
        api (.patch .roleBinding patched)
      else pure ()

/-- The three RBAC objects, one after another. The account and the role come
before the binding that refers to them. -/
def ensureRBAC (cluster : Redkey) : Rec Unit := do
  ensureServiceAccount cluster
  ensureRole cluster
  ensureRoleBinding cluster

/-! ## The Deployment -/

/-- What Robin finds its cluster by. -/
def robinDefaultEnvVars (cluster : Redkey) : List EnvVar := [
  { name := "CLUSTER_NAME", value := cluster.name },
  { name := "NAMESPACE", value := cluster.ns }]

/-- The growing list of `mergeEnvVars` and its index by name. -/
structure EnvMerge where
  merged : List EnvVar
  /-- ℕ => and where each name stands in it. -/
  indexByName : Finmap fun _ : String => ℕ

/-- One iteration over the overrides: replace in place, or append. -/
def EnvMerge.add (m : EnvMerge) (envVar : EnvVar) : EnvMerge :=
  match m.indexByName.lookup envVar.name with
  -- the first occurrence gives the position, the last one the value
  | some index => { m with merged := m.merged.set index envVar }
  | none => {
      merged := m.merged ++ [envVar]
      indexByName := m.indexByName.insert envVar.name m.merged.length }

/-- `base` with the overrides in place, and new names behind it. A name that
comes twice in the overrides is appended once. -/
def mergeEnvVars (base overrides : List EnvVar) : List EnvVar :=
  -- of two variables with one name the index has the later one
  let indexByName := base.zipIdx.foldl (fun m e => m.insert e.1.name e.2) ∅
  (overrides.foldl EnvMerge.add ⟨base, indexByName⟩).merged

/-- The container before the template is applied. Its arguments refer to the
two default variables. -/
def robinBaseContainer (cluster : Redkey) : Container where
  name := "robin"
  image := cluster.spec.robin.image
  args := ["--cluster-name=$(CLUSTER_NAME)", "--namespace=$(NAMESPACE)"]
  env := robinDefaultEnvVars cluster
  -- name, host port, container port, protocol, host IP
  ports := [.struct [.str "metrics", .int 0, .int 8080, .str "TCP", .str ""]]
  resources := cluster.spec.robin.resources.getD {}

/-- The overrides of the template's first container. What it leaves empty
keeps the base value. -/
def Container.override (container src : Container) : Container :=
  { container with
    image := if src.image ≠ "" then src.image else container.image
    resources :=
      if src.resources.limits.isSome ∨ src.resources.requests.isSome then src.resources
      else container.resources
    env := if src.env.isEmpty then container.env else mergeEnvVars container.env src.env
    envFrom := if src.envFrom.isEmpty then container.envFrom else src.envFrom
    volumeMounts := if src.volumeMounts.isEmpty then container.volumeMounts else src.volumeMounts
    securityContext := src.securityContext <|> container.securityContext }

/-- The container with the template applied; the default variables are merged
once more, so that the template cannot change them. -/
def robinContainer (cluster : Redkey) : Container :=
  match cluster.spec.robin.template with
  | none => robinBaseContainer cluster
  | some tpl =>
      let container := match tpl.spec.containers with
        | [] => robinBaseContainer cluster
        | src :: _ => (robinBaseContainer cluster).override src
      { container with env := mergeEnvVars container.env (robinDefaultEnvVars cluster) }

/-- The pod spec; its pod-level fields start empty and are the template's, if
there is one. -/
def robinPodSpec (cluster : Redkey) : PodSpec :=
  match cluster.spec.robin.template with
  | none => {
      serviceAccountName := robinName cluster
      containers := [robinContainer cluster] }
  | some tpl => {
      serviceAccountName := robinName cluster
      containers := [robinContainer cluster]
      nodeSelector := tpl.spec.nodeSelector
      tolerations := tpl.spec.tolerations
      affinity := tpl.spec.affinity
      securityContext := tpl.spec.securityContext
      imagePullSecrets := tpl.spec.imagePullSecrets
      priorityClassName := tpl.spec.priorityClassName
      topologySpreadConstraints := tpl.spec.topologySpreadConstraints
      volumes := tpl.spec.volumes }

/-- The Deployment the spec asks for. The labels of the template replace those
of the spec on the pods only. -/
def buildDesiredRobinDeployment (cluster : Redkey) : Deployment :=
  let specLabels := derefMap cluster.spec.labels
  let specAnnotations := derefMap cluster.spec.annotations
  let tplLabels := (cluster.spec.robin.template.map (·.labels)).getD ∅
  let tplAnnotations := (cluster.spec.robin.template.map (·.annotations)).getD ∅
  { metadata := {
      ns := cluster.ns
      name := robinName cluster
      labels := mergeMeta specLabels ∅ (robinBaseLabels cluster)
      annotations := mergeMeta specAnnotations ∅ ∅
      controller := some cluster.name }
    replicas := some 1
    selector := robinBaseLabels cluster
    template := {
      labels := mergeMeta specLabels tplLabels (robinBaseLabels cluster)
      annotations := mergeMeta specAnnotations tplAnnotations ∅
      spec := robinPodSpec cluster } }

/-- Set by the Deployment controller, not by the operator. -/
def deploymentRevisionAnnotation : String := "deployment.kubernetes.io/revision"

/-- The annotations without those the Deployment controller manages, so that
they do not count as drift. -/
def stripManagedAnnotations (annotations : StringMap) : StringMap :=
  annotations.erase deploymentRevisionAnnotation

/-- The desired annotations with the managed ones of the existing object.
Without this a patch would remove them. -/
def preserveManagedAnnotations (existing desired : StringMap) : StringMap :=
  match existing.lookup deploymentRevisionAnnotation with
  | none => desired
  | some rev => desired.insert deploymentRevisionAnnotation rev

/-- The Deployment has drifted from what the spec asks for. Its selector is
not compared, since it cannot be changed. -/
def robinDeploymentNeedsUpdate (existing desired : Deployment) : Bool :=
  existing.replicas ≠ desired.replicas ∨
  existing.metadata.labels ≠ desired.metadata.labels ∨
  stripManagedAnnotations existing.metadata.annotations ≠ desired.metadata.annotations ∨
  existing.template.labels ≠ desired.template.labels ∨
  existing.template.annotations ≠ desired.template.annotations ∨
  -- one-sided: an empty field of the desired pod spec asks for nothing
  ¬ desired.template.spec.toValue.deepDerivative existing.template.spec.toValue

/-- The existing Deployment as the operator patches it: labels, replicas and
the template are replaced as a whole. -/
def patchedDeployment (existing desired : Deployment) : Deployment :=
  { existing with
    metadata := { existing.metadata with
      labels := desired.metadata.labels
      annotations :=
        preserveManagedAnnotations existing.metadata.annotations desired.metadata.annotations }
    replicas := desired.replicas
    -- the selector cannot be changed, so it stays the one of the creation
    template := desired.template }

/-- Create or repair the Deployment. The counter is increased once the request
has succeeded. -/
def ensureRobinDeployment (cluster : Redkey) : Rec Unit :=
  let desired := buildDesiredRobinDeployment cluster
  withExisting .deployment desired.metadata.key
    (do
      api (.create .deployment desired)
      metric (.robinDeploymentChange .create))
    fun (existing : Deployment) =>
      if robinDeploymentNeedsUpdate existing desired then do
        api (.patch .deployment (patchedDeployment existing desired))
        metric (.robinDeploymentChange .patch)
      else pure ()

end RedkeyOperator
