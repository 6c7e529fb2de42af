import RedkeyOperator.Lib.Value

/-!
# Kubernetes objects

The part of the Kubernetes API the operator reads and writes: metadata, status
conditions, the RBAC objects and the Deployment of Robin. Nested API types the
operator only copies (tolerations, affinity, volumes, security contexts, ...) are
`Value`s.

Fields the operator never sets but the API server fills in when it stores an object
(`imagePullPolicy`, `dnsPolicy`, the rollout strategy, ...) are collected in the
`defaulted` fields, by name.
-/

namespace RedkeyOperator

/-- A point in time, in seconds. -/
abbrev Time := ℕ

/-- The key of a namespaced object. -/
structure NamespacedName where
  ns : String
  name : String
deriving DecidableEq, Repr

/-- Object metadata, with the parts the operator sets or compares. Versions
and timestamps of these objects play no part. -/
structure ObjectMeta where
  ns : String
  name : String
  labels : StringMap := ∅
  annotations : StringMap := ∅
  /-- The controller owner reference: the name of the Redkey that owns the
  object. -/
  controller : Option String := none
deriving DecidableEq

/-- The key of the object. -/
def ObjectMeta.key (m : ObjectMeta) : NamespacedName := ⟨m.ns, m.name⟩

/-! ## Conditions -/

/-- Whether a condition holds; `conditionUnknown` when nobody can tell. -/
inductive ConditionStatus where
  | conditionTrue
  | conditionFalse
  | conditionUnknown
deriving DecidableEq, Repr

/-- A status condition. The type is what identifies it, and a list should have
one of each. -/
structure Condition where
  type : String
  status : ConditionStatus
  /-- The generation that the condition was computed for. -/
  observedGeneration : Int := 0
  /-- When the status changed, not when the condition was written. -/
  lastTransitionTime : Time := 0
  reason : String := ""
  message : String := ""
deriving DecidableEq, Repr

/-- `meta.FindStatusCondition`: the first condition of the type. -/
def findStatusCondition (conditions : List Condition) (type : String) : Option Condition :=
  conditions.find? fun c => c.type == type

/-- The update `meta.SetStatusCondition` makes to a condition that is already
there: the transition time moves only when the status does. -/
def Condition.update (now : Time) (old new : Condition) : Condition :=
  { new with
    lastTransitionTime := if old.status = new.status then old.lastTransitionTime else now }

/-- `meta.SetStatusCondition`: update the first condition of the type, or
append the new one. The callers leave the transition time unset, so it is
taken from the clock. -/
def setStatusCondition (now : Time) : List Condition → Condition → List Condition
  | [], new => [{ new with lastTransitionTime := now }]
  | c :: cs, new =>
      if c.type = new.type then c.update now new :: cs else c :: setStatusCondition now cs new

/-! ## Pods -/

/-- A container environment variable: a literal value, or a source. -/
structure EnvVar where
  name : String
  value : String := ""
  valueFrom : Option Value := none

/-- Resource quantities by resource name. A nil map asks for nothing and an
empty one for no limit: the two differ where a template overrides the
resources. -/
structure ResourceRequirements where
  limits : Option QuantityMap := none
  requests : Option QuantityMap := none
  claims : List Value := []

/-- A container, with the fields that the operator builds or a template
overrides. -/
structure Container where
  name : String := ""
  image : String := ""
  args : List String := []
  env : List EnvVar := []
  envFrom : List Value := []
  ports : List Value := []
  resources : ResourceRequirements := {}
  volumeMounts : List Value := []
  securityContext : Option Value := none
  defaulted : StringMap := ∅

/-- The spec of a pod. The operator writes one with a single container. -/
structure PodSpec where
  serviceAccountName : String := ""
  containers : List Container := []
  nodeSelector : StringMap := ∅
  tolerations : List Value := []
  affinity : Option Value := none
  securityContext : Option Value := none
  imagePullSecrets : List Value := []
  priorityClassName : String := ""
  topologySpreadConstraints : List Value := []
  volumes : List Value := []
  defaulted : StringMap := ∅

/-- The template of the pods of a Deployment. Its metadata is labels and
annotations. -/
structure PodTemplateSpec where
  labels : StringMap := ∅
  annotations : StringMap := ∅
  spec : PodSpec := {}

/-! ### Reflection -/

/-- The fields as `DeepDerivative` walks through them, in the order of the
struct. -/
def EnvVar.toValue (e : EnvVar) : Value :=
  .struct [.str e.name, .str e.value, .ptr e.valueFrom]

/-- A nil map and an empty one are the same to the comparison. -/
def ResourceRequirements.toValue (r : ResourceRequirements) : Value :=
  .struct [.quantities (r.limits.getD ∅), .quantities (r.requests.getD ∅), .slice r.claims]

def Container.toValue (c : Container) : Value :=
  .struct [.str c.name, .str c.image, .slice (c.args.map .str), .slice (c.env.map EnvVar.toValue),
    .slice c.envFrom, .slice c.ports, c.resources.toValue, .slice c.volumeMounts,
    .ptr c.securityContext, .strings c.defaulted]

def PodSpec.toValue (p : PodSpec) : Value :=
  .struct [.str p.serviceAccountName, .slice (p.containers.map Container.toValue),
    .strings p.nodeSelector, .slice p.tolerations, .ptr p.affinity, .ptr p.securityContext,
    .slice p.imagePullSecrets, .str p.priorityClassName, .slice p.topologySpreadConstraints,
    .slice p.volumes, .strings p.defaulted]

/-! ## The objects Robin runs on -/

/-- The account that Robin's pod runs under. -/
structure ServiceAccount where
  metadata : ObjectMeta

/-- What is allowed: every one of the verbs on every one of the resources, in
each of the groups. -/
structure PolicyRule where
  apiGroups : List String
  resources : List String
  verbs : List String
deriving DecidableEq, Repr

/-- The permissions of Robin, in the namespace of the cluster. -/
structure Role where
  metadata : ObjectMeta
  rules : List PolicyRule

/-- Whom a binding hands the permissions to. -/
structure Subject where
  kind : String
  name : String
  ns : String
deriving DecidableEq, Repr

/-- Which role a binding hands out. It cannot be changed once the binding is
stored. -/
structure RoleRef where
  apiGroup : String
  kind : String
  name : String
deriving DecidableEq, Repr

/-- Hands out a role to its subjects. -/
structure RoleBinding where
  metadata : ObjectMeta
  subjects : List Subject
  roleRef : RoleRef

/-- The Deployment of Robin. -/
structure Deployment where
  metadata : ObjectMeta
  replicas : Option Int := none
  /-- The labels of the pods that belong to it. -/
  selector : StringMap := ∅
  template : PodTemplateSpec := {}
  defaulted : StringMap := ∅

/-- The kinds of the objects the operator creates for Robin. -/
inductive Kind where
  | serviceAccount
  | role
  | roleBinding
  | deployment
deriving DecidableEq, Repr

/-- The objects of a kind. -/
@[reducible] def Obj : Kind → Type
  | .serviceAccount => ServiceAccount
  | .role => Role
  | .roleBinding => RoleBinding
  | .deployment => Deployment

/-- The metadata of an object. -/
def Obj.metadata : {k : Kind} → Obj k → ObjectMeta
  | .serviceAccount, (o : ServiceAccount) => o.metadata
  | .role, (o : Role) => o.metadata
  | .roleBinding, (o : RoleBinding) => o.metadata
  | .deployment, (o : Deployment) => o.metadata

end RedkeyOperator
