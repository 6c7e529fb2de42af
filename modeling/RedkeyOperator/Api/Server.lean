import RedkeyOperator.Api.Redkey
import RedkeyOperator.Lib.Rules

/-!
# The API server

What the operator asks of the outside world (`Call`), the stored state (`Store`) and
what the API server does with a request on up-to-date state (`serve`).

* `Create` of an existing key fails with `AlreadyExists`; `Delete`, `Get` and `Patch` of a
  missing one with `NotFound`.
* A status write goes through the status subresource: it replaces the status of the
  stored object and nothing else, and fails with `Conflict` unless it was made from the
  stored resource version.
* `Patch` with `MergeFrom` stores the modified object.
* Deployments are stored with the defaults of their unset fields filled in; `fill` stands
  for that part of the server.

The steps of the other parties are `Store.userUpdate` (an edit of a Redkey's spec) and
`Store.robinWrite` (Robin reporting on a config).
-/

namespace RedkeyOperator

open Interleaved

/-! ## Calls -/

/-- The reasons for which a request fails, as the operator can tell them
apart. -/
inductive ApiError where
  | notFound
  | alreadyExists
  /-- The object has changed since it was read. -/
  | conflict
  /-- Anything else: a timeout, a refused connection, a request that was
  forbidden. -/
  | other
deriving DecidableEq, Repr

/-- The stages of a reconcile, as they label the stage error counter. -/
inductive Stage where
  | getCluster
  | scaleToZero
  | ensureRBAC
  | ensureRobinDeployment
  | listConfigs
  | createNewConfig
  | cleanupSupersededConfigs
  | aggregateStatus
deriving DecidableEq, Repr

/-- Why a config was created. -/
inductive CreationReason where
  | initial
  /-- The spec has changed since the highest one. -/
  | generationChange
deriving DecidableEq, Repr

/-- What was done to the Robin Deployment. -/
inductive DeploymentAction where
  | create
  | patch
deriving DecidableEq, Repr

/-- The metric updates of the operator. They are requests as well, so that a
run shows where they happen. -/
inductive MetricEvent where
  | stageError (stage : Stage)
  | configCreation (reason : CreationReason)
  | cleanupDeletedConfig
  | robinDeploymentChange (action : DeploymentAction)
  | recordRedkeyMetrics (cluster : Redkey) (activeConfig : Option RedkeyConfig)
  | deleteRedkeyMetrics (key : NamespacedName)

/-- The two places that read the Redkey: the start of a reconcile, and the
attempts of `aggregateStatus`. -/
inductive ReadSite where
  | reconcile
  /-- The read of one attempt at the status write. -/
  | aggregateStatus
deriving DecidableEq, Repr

/-- The two places that list configs. -/
inductive ListSite where
  | listConfigs
  | deleteAllConfigs
deriving DecidableEq, Repr

/-- The requests of the operator. Every one but `metric` goes to the API
server. The read sites are not part of a request; they are there for
invariants to tell the requests apart. -/
inductive Call where
  | getRedkey (key : NamespacedName) (site : ReadSite)
  /-- The status of `cluster`, as written over the version it was read in. -/
  | updateRedkeyStatus (cluster : Redkey)
  /-- The configs of a namespace that carry the label. -/
  | listConfigs (ns label value : String) (site : ListSite)
  | createConfig (config : RedkeyConfig)
  | deleteConfig (key : NamespacedName)
  | get (k : Kind) (key : NamespacedName)
  | create (k : Kind) (obj : Obj k)
  | patch (k : Kind) (obj : Obj k)
  | delete (k : Kind) (key : NamespacedName)
  | metric (event : MetricEvent)

/-- The call lists the configs that `deleteAllConfigs` deletes. -/
def Call.listsForDeletion : Call → Bool
  | .listConfigs _ _ _ .deleteAllConfigs => true
  | _ => false

/-- The call writes nothing to the API server. -/
def Call.isRead : Call → Bool
  | .getRedkey .. => true
  | .listConfigs .. => true
  | .get .. => true
  | .metric _ => true
  | _ => false

/-- What a successful call returns. -/
@[reducible] def Payload : Call → Type
  | .getRedkey .. => Redkey
  | .updateRedkeyStatus _ => Redkey
  | .listConfigs .. => List RedkeyConfig
  | .get k _ => Obj k
  | _ => Unit

/-- The response to a call. -/
abbrev Resp (c : Call) := Except ApiError (Payload c)

/-- A request that failed for a reason of its own: a timeout, a refused
connection. -/
def lost (c : Call) : Resp c := .error .other

/-! ## Requests on one kind

The objects of its kind after a request, or the reason it fails. -/

/-- The stored objects of a kind. -/
abbrev Objs (k : Kind) := NamespacedName → Option (Obj k)

/-- The object as it is stored: Deployments get the defaults of their unset
fields. -/
def withDefaults (fill : Deployment → Deployment) : (k : Kind) → Obj k → Obj k
  | .serviceAccount, o => o
  | .role, o => o
  | .roleBinding, o => o
  | .deployment, o => fill o

/-- Read a stored object. -/
def find {α : Type} (objs : NamespacedName → Option α) (key : NamespacedName) :
    Except ApiError α :=
  match objs key with
  | some obj => .ok obj
  | none => .error .notFound

namespace Objs

variable {k : Kind}

/-- A new object, with its defaults filled in. -/
def create (fill : Deployment → Deployment) (objs : Objs k) (obj : Obj k) :
    Except ApiError (Objs k) :=
  match objs obj.metadata.key with
  | some _ => .error .alreadyExists
  | none => .ok (Function.update objs obj.metadata.key (some (withDefaults fill k obj)))

/-- A patch made with `MergeFrom`: the modified object in place of the stored
one. -/
def patch (fill : Deployment → Deployment) (objs : Objs k) (obj : Obj k) :
    Except ApiError (Objs k) :=
  match objs obj.metadata.key with
  | some _ => .ok (Function.update objs obj.metadata.key (some (withDefaults fill k obj)))
  | none => .error .notFound

/-- Deletion takes effect at once; the objects of Robin have no finalizers. -/
def delete (objs : Objs k) (key : NamespacedName) : Except ApiError (Objs k) :=
  match objs key with
  | some _ => .ok (Function.update objs key none)
  | none => .error .notFound

/-- What a request has done if it succeeds, and why it fails. -/
theorem create_ok {fill : Deployment → Deployment} {objs objs' : Objs k} {obj : Obj k}
    (h : create fill objs obj = .ok objs') :
    objs' = Function.update objs obj.metadata.key (some (withDefaults fill k obj)) ∧
      objs obj.metadata.key = none := by
  unfold create at h
  cases hobj : objs obj.metadata.key with
  | some old => simp [hobj] at h
  | none =>
      simp only [hobj, Except.ok.injEq] at h
      exact ⟨h.symm, rfl⟩

theorem create_error {fill : Deployment → Deployment} {objs : Objs k} {obj : Obj k} {e : ApiError}
    (h : create fill objs obj = .error e) :
    e = .alreadyExists ∧ (objs obj.metadata.key).isSome := by
  unfold create at h
  cases hobj : objs obj.metadata.key with
  | some old =>
      simp only [hobj, Except.error.injEq] at h
      exact ⟨h.symm, rfl⟩
  | none => simp [hobj] at h

theorem patch_ok {fill : Deployment → Deployment} {objs objs' : Objs k} {obj : Obj k}
    (h : patch fill objs obj = .ok objs') :
    objs' = Function.update objs obj.metadata.key (some (withDefaults fill k obj)) ∧
      (objs obj.metadata.key).isSome := by
  unfold patch at h
  cases hobj : objs obj.metadata.key with
  | some old =>
      simp only [hobj, Except.ok.injEq] at h
      exact ⟨h.symm, rfl⟩
  | none => simp [hobj] at h

theorem patch_error {fill : Deployment → Deployment} {objs : Objs k} {obj : Obj k} {e : ApiError}
    (h : patch fill objs obj = .error e) : e = .notFound ∧ objs obj.metadata.key = none := by
  unfold patch at h
  cases hobj : objs obj.metadata.key with
  | some old => simp [hobj] at h
  | none =>
      simp only [hobj, Except.error.injEq] at h
      exact ⟨h.symm, rfl⟩

theorem delete_ok {objs objs' : Objs k} {key : NamespacedName}
    (h : delete objs key = .ok objs') : objs' = Function.update objs key none := by
  unfold delete at h
  cases hobj : objs key with
  | some old =>
      simp only [hobj, Except.ok.injEq] at h
      exact h.symm
  | none => simp [hobj] at h

theorem delete_error {objs : Objs k} {key : NamespacedName} {e : ApiError}
    (h : delete objs key = .error e) : e = .notFound ∧ objs key = none := by
  unfold delete at h
  cases hobj : objs key with
  | some old => simp [hobj] at h
  | none =>
      simp only [hobj, Except.error.injEq] at h
      exact ⟨h.symm, rfl⟩

end Objs

/-- Write a status over the stored object `live`. The write is refused if it
was made from another version. -/
def Redkey.writeStatus (live cluster : Redkey) : Except ApiError Redkey :=
  if live.resourceVersion = cluster.resourceVersion then
    .ok { live with
      status := cluster.status
      resourceVersion := live.resourceVersion + 1 }
  else .error .conflict

/-- The spec and the generation are those of the stored object. -/
theorem Redkey.writeStatus_ok {live cluster stored : Redkey}
    (h : live.writeStatus cluster = .ok stored) :
    live.resourceVersion = cluster.resourceVersion ∧ stored = { live with
      status := cluster.status
      resourceVersion := live.resourceVersion + 1 } := by
  unfold writeStatus at h
  split at h
  case isTrue hrv =>
    cases h
    exact ⟨hrv, rfl⟩
  case isFalse => cases h

/-- A user edit of the spec: a new generation and a new resource version. -/
def Redkey.edit (live : Redkey) (spec : RedkeySpec) : Redkey :=
  { live with
    spec := spec
    generation := live.generation + 1
    resourceVersion := live.resourceVersion + 1 }

theorem Redkey.edit_key (live : Redkey) (spec : RedkeySpec) : (live.edit spec).key = live.key := rfl

/-- A config of the namespace that carries the label. -/
def RedkeyConfig.selected (ns label value : String) (c : RedkeyConfig) : Bool :=
  c.metadata.ns = ns ∧ c.metadata.labels.lookup label = some value

namespace Configs

/-- Is there a config with the key? -/
def has (configs : List RedkeyConfig) (key : NamespacedName) : Bool :=
  configs.any fun c => c.key = key

/-- A new config goes to the end; lists are in no particular order. -/
def create (configs : List RedkeyConfig) (config : RedkeyConfig) :
    Except ApiError (List RedkeyConfig) :=
  if has configs config.key then .error .alreadyExists else .ok (configs ++ [config])

/-- The configs with other keys. -/
def erase (configs : List RedkeyConfig) (key : NamespacedName) : List RedkeyConfig :=
  configs.filter fun c => c.key ≠ key

/-- The config with the key is deleted. -/
def delete (configs : List RedkeyConfig) (key : NamespacedName) :
    Except ApiError (List RedkeyConfig) :=
  if has configs key then .ok (erase configs key) else .error .notFound

/-- Robin writes the status of the config with the key. -/
def robinWrite (configs : List RedkeyConfig) (key : NamespacedName)
    (status : RedkeyConfigStatus) : List RedkeyConfig :=
  configs.map fun c => if c.key = key then { c with status := status } else c

theorem has_iff {configs : List RedkeyConfig} {key : NamespacedName} :
    has configs key = true ↔ ∃ c ∈ configs, c.key = key := by
  simp [has]

theorem not_has_iff {configs : List RedkeyConfig} {key : NamespacedName} :
    has configs key = false ↔ ∀ c ∈ configs, c.key ≠ key := by
  simp [has]

theorem mem_erase {configs : List RedkeyConfig} {key : NamespacedName} {c : RedkeyConfig} :
    c ∈ erase configs key ↔ c ∈ configs ∧ c.key ≠ key := by
  simp [erase]

theorem create_ok {configs configs' : List RedkeyConfig} {config : RedkeyConfig}
    (h : create configs config = .ok configs') :
    configs' = configs ++ [config] ∧ ∀ c ∈ configs, c.key ≠ config.key := by
  unfold create at h
  split at h
  case isTrue => cases h
  case isFalse hhas =>
    cases h
    exact ⟨rfl, not_has_iff.mp (by simpa using hhas)⟩

theorem create_error {configs : List RedkeyConfig} {config : RedkeyConfig} {e : ApiError}
    (h : create configs config = .error e) :
    e = .alreadyExists ∧ ∃ c ∈ configs, c.key = config.key := by
  unfold create at h
  split at h
  case isTrue hhas =>
    cases h
    exact ⟨rfl, has_iff.mp hhas⟩
  case isFalse => cases h

theorem delete_ok {configs configs' : List RedkeyConfig} {key : NamespacedName}
    (h : delete configs key = .ok configs') : configs' = erase configs key := by
  unfold delete at h
  split at h
  case isTrue =>
    cases h
    rfl
  case isFalse => cases h

theorem delete_error {configs : List RedkeyConfig} {key : NamespacedName} {e : ApiError}
    (h : delete configs key = .error e) : e = .notFound ∧ erase configs key = configs := by
  unfold delete at h
  split at h
  case isTrue => cases h
  case isFalse hhas =>
    cases h
    refine ⟨rfl, List.filter_eq_self.mpr ?_⟩
    intro c hc
    exact decide_eq_true (not_has_iff.mp (by simpa using hhas) c hc)

/-- A report changes no key. -/
theorem map_key_robinWrite (configs : List RedkeyConfig) (key : NamespacedName)
    (status : RedkeyConfigStatus) :
    (robinWrite configs key status).map RedkeyConfig.key = configs.map RedkeyConfig.key := by
  rw [robinWrite, List.map_map]
  refine List.map_congr_left fun c _ => ?_
  simp only [Function.comp_apply]
  split <;> rfl

/-- A report changes the status of one config and nothing else. -/
theorem mem_robinWrite {configs : List RedkeyConfig} {key : NamespacedName}
    {status : RedkeyConfigStatus} {c : RedkeyConfig} (h : c ∈ robinWrite configs key status) :
    ∃ c₀ ∈ configs, c.metadata = c₀.metadata ∧ c.spec = c₀.spec ∧
      (c = c₀ ∨ c₀.key = key ∧ c.status = status) := by
  obtain ⟨c₀, hc₀, rfl⟩ := List.mem_map.mp h
  by_cases hkey : c₀.key = key
  · exact ⟨c₀, hc₀, by simp [hkey]⟩
  · exact ⟨c₀, hc₀, by simp [hkey]⟩

end Configs

/-! ## The store -/

/-- The objects of the API server the operator deals with. -/
structure Store where
  redkeys : NamespacedName → Option Redkey
  configs : List RedkeyConfig
  robin : (k : Kind) → Objs k

namespace Store

/-- Store a Redkey under a key. -/
def setRedkey (s : Store) (key : NamespacedName) (cluster : Redkey) : Store :=
  { s with redkeys := Function.update s.redkeys key (some cluster) }

/-- Replace the objects of a kind. -/
def setObjs (s : Store) (k : Kind) (objs : Objs k) : Store :=
  { s with robin := Function.update s.robin k objs }

@[simp] theorem setRedkey_configs (s : Store) (key : NamespacedName) (r : Redkey) :
    (s.setRedkey key r).configs = s.configs := rfl

@[simp] theorem setRedkey_robin (s : Store) (key : NamespacedName) (r : Redkey) :
    (s.setRedkey key r).robin = s.robin := rfl

@[simp] theorem setRedkey_redkeys_self (s : Store) (key : NamespacedName) (r : Redkey) :
    (s.setRedkey key r).redkeys key = some r := by
  simp [setRedkey]

theorem setRedkey_redkeys_ne (s : Store) (r : Redkey) {key key' : NamespacedName}
    (h : key' ≠ key) : (s.setRedkey key r).redkeys key' = s.redkeys key' := by
  simp [setRedkey, h]

@[simp] theorem setObjs_redkeys (s : Store) (k : Kind) (objs : Objs k) :
    (s.setObjs k objs).redkeys = s.redkeys := rfl

@[simp] theorem setObjs_configs (s : Store) (k : Kind) (objs : Objs k) :
    (s.setObjs k objs).configs = s.configs := rfl

@[simp] theorem setObjs_robin_self (s : Store) (k : Kind) (objs : Objs k) :
    (s.setObjs k objs).robin k = objs := by
  simp [setObjs]

theorem setObjs_robin_ne (s : Store) {k k' : Kind} (objs : Objs k) (h : k' ≠ k) :
    (s.setObjs k objs).robin k' = s.robin k' := by
  simp [setObjs, h]

/-- Store or remove an object. -/
def setObj (s : Store) (k : Kind) (key : NamespacedName) (obj : Option (Obj k)) : Store :=
  s.setObjs k (Function.update (s.robin k) key obj)

@[simp] theorem setObj_self (s : Store) (k : Kind) (key : NamespacedName) (obj : Option (Obj k)) :
    (s.setObj k key obj).robin k key = obj := by
  simp [setObj]

theorem setObj_of_ne_key (s : Store) {k : Kind} {key key' : NamespacedName} {obj : Option (Obj k)}
    (h : key' ≠ key) : (s.setObj k key obj).robin k key' = s.robin k key' := by
  simp [setObj, h]

theorem setObj_of_ne_kind (s : Store) {k k' : Kind} {key : NamespacedName} {obj : Option (Obj k)}
    (h : k' ≠ k) : (s.setObj k key obj).robin k' = s.robin k' :=
  setObjs_robin_ne s _ h

theorem setObj_eq_self (s : Store) {k : Kind} {key : NamespacedName} {obj : Option (Obj k)}
    (h : s.robin k key = obj) : s.setObj k key obj = s := by
  subst h
  simp [setObj, setObjs]

theorem setObj_setObj (s : Store) (k : Kind) (key : NamespacedName) (obj obj' : Option (Obj k)) :
    (s.setObj k key obj).setObj k key obj' = s.setObj k key obj' := by
  simp [setObj, setObjs]

/-- Storing an object makes none disappear. -/
theorem isSome_setObj (s : Store) {k k' : Kind} {key key' : NamespacedName} {obj : Obj k}
    (h : (s.robin k' key').isSome) : ((s.setObj k key (some obj)).robin k' key').isSome := by
  by_cases hk : k' = k
  · subst hk
    by_cases hkey : key' = key
    · subst hkey
      simp
    · rwa [s.setObj_of_ne_key hkey]
  · rwa [s.setObj_of_ne_kind hk]

/-! ### The other parties -/

/-- A user edits a Redkey. -/
def userUpdate (s : Store) (cluster : Redkey) (spec : RedkeySpec) : Store :=
  s.setRedkey cluster.key (cluster.edit spec)

/-- Robin reports on a config. -/
def robinWrite (s : Store) (key : NamespacedName) (status : RedkeyConfigStatus) : Store :=
  { s with configs := Configs.robinWrite s.configs key status }

end Store

/-! ## Requests on up-to-date state -/

/-- Go on with the outcome of a request that changes the store, or leave it
alone. -/
def Store.commit {α : Type} (s : Store) (outcome : Except ApiError α) (put : α → Store) :
    Except ApiError Unit × Store :=
  match outcome with
  | .ok a => (.ok (), put a)
  | .error e => (.error e, s)

/-- The API server: the response to a call and the store after it. -/
def serve (fill : Deployment → Deployment) : (c : Call) → Store → Resp c × Store
  | .getRedkey key _, s => (find s.redkeys key, s)
  -- => the status subresource: the spec that is sent along is ignored
  | .updateRedkeyStatus cluster, s =>
      match s.redkeys cluster.key with
      | none => (.error .notFound, s)
      | some live =>
          match live.writeStatus cluster with
          | .ok stored => (.ok stored, s.setRedkey cluster.key stored)
          | .error e => (.error e, s)
  | .listConfigs ns label value _, s => (.ok (s.configs.filter (·.selected ns label value)), s)
  | .createConfig config, s =>
      s.commit (Configs.create s.configs config) fun cs => { s with configs := cs }
  | .deleteConfig key, s =>
      s.commit (Configs.delete s.configs key) fun cs => { s with configs := cs }
  | .get k key, s => (find (s.robin k) key, s)
  | .create k obj, s => s.commit ((s.robin k).create fill obj) (s.setObjs k)
  | .patch k obj, s => s.commit ((s.robin k).patch fill obj) (s.setObjs k)
  | .delete k key, s => s.commit ((s.robin k).delete key) (s.setObjs k)
  -- => counters live in the operator
  | .metric _, s => (.ok (), s)

/-- The server with failures: a request may be answered by any error, before
or after it was served. `NotFound` alone is always the truth. -/
def faulty (fill : Deployment → Deployment) : Sem Call Resp Store where
  -- nobody else is there; what others do is up to the systems built on this
  env _ _ := False
  exec c s r s' := (r, s') = serve fill c s ∨
    ∃ e, e ≠ .notFound ∧ r = .error e ∧ (s' = s ∨ s' = (serve fill c s).2)

end RedkeyOperator
