import RedkeyOperator.System.Undisturbed
import RedkeyOperator.Lib.Trace

/-!
# Drift of the Robin Deployment

`ensureRobinDeployment` compares the stored Deployment with the one the spec asks for. Labels and
annotations are compared exactly, the pod spec one-sidedly, and a patch replaces all of it.

* Going from spec A to spec B gives the Deployment that B alone gives, if B removes nothing: when B
  asks for nothing that the Deployment of A lacks, it asks for all that A asked for
  (`deployment_of_spec`). What B does remove stays (`removed_selector_stays`).
* What Kubernetes does to a stored Deployment is not taken for drift, unless the user sets the
  revision annotation; then every call patches (`next_ensure_writes_nothing_iff`).
-/

namespace RedkeyOperator

open Interleaved Interleaved.Op

/-! ## What the operator builds -/

/-- Resources, nil and empty identified. The API server does not keep them
apart. -/
def ResourceRequirements.built (r : ResourceRequirements) : ResourceRequirements :=
  { r with limits := some (r.limits.getD ∅), requests := some (r.requests.getD ∅) }

/-- The fields of the container that come from the spec. -/
structure BuiltContainer where
  image : String
  resources : ResourceRequirements
  env : List EnvVar
  envFrom : List Value
  volumeMounts : List Value
  securityContext : Option Value

/-- What the operator asks of a container, without the fields that only the
server fills in. -/
def Container.built (c : Container) : BuiltContainer where
  image := c.image
  resources := c.resources.built
  env := c.env
  envFrom := c.envFrom
  volumeMounts := c.volumeMounts
  securityContext := c.securityContext

/-- The fields of the pod spec that come from the spec. -/
structure BuiltPodSpec where
  containers : List BuiltContainer
  nodeSelector : StringMap
  tolerations : List Value
  affinity : Option Value
  securityContext : Option Value
  imagePullSecrets : List Value
  priorityClassName : String
  topologySpreadConstraints : List Value
  volumes : List Value

/-- What the operator asks of the pods. -/
def PodSpec.built (p : PodSpec) : BuiltPodSpec where
  containers := p.containers.map Container.built
  nodeSelector := p.nodeSelector
  tolerations := p.tolerations
  affinity := p.affinity
  securityContext := p.securityContext
  imagePullSecrets := p.imagePullSecrets
  priorityClassName := p.priorityClassName
  topologySpreadConstraints := p.topologySpreadConstraints
  volumes := p.volumes

/-- The fields of the Deployment that come from the spec. The revision
annotation belongs to the Deployment controller. -/
structure BuiltDeployment where
  replicas : Option Int
  labels : StringMap
  annotations : StringMap
  podLabels : StringMap
  podAnnotations : StringMap
  podSpec : BuiltPodSpec

/-- What the operator asks of a Deployment: the part of it that is compared,
and that a patch replaces. -/
def Deployment.built (d : Deployment) : BuiltDeployment where
  replicas := d.replicas
  labels := d.metadata.labels
  annotations := stripManagedAnnotations d.metadata.annotations
  podLabels := d.template.labels
  podAnnotations := d.template.annotations
  podSpec := d.template.spec.built

/-- The API server fills unset fields in and leaves alone what is set.
`Value.Keeps` says so of a pod spec as a whole. -/
structure FillsUnset (fill : Deployment → Deployment) : Prop where
  metadata : ∀ d, (fill d).metadata = d.metadata
  replicas : ∀ (d : Deployment) n, d.replicas = some n → (fill d).replicas = some n
  labels : ∀ d, (fill d).template.labels = d.template.labels
  annotations : ∀ d, (fill d).template.annotations = d.template.annotations
  spec : ∀ d : Deployment,
    d.template.spec.toValue.Keeps d.template.spec.toValue (fill d).template.spec.toValue

/-- `toValue` is the value that reflection sees. For a variable it shows
everything. -/
theorem EnvVar.toValue_inj {e e' : EnvVar} (h : e.toValue = e'.toValue) : e = e' := by
  obtain ⟨name, value, valueFrom⟩ := e
  obtain ⟨name', value', valueFrom'⟩ := e'
  simpa [EnvVar.toValue] using h

/-- For resources it shows everything but the difference of nil and empty. -/
theorem ResourceRequirements.built_of_toValue {r r' : ResourceRequirements}
    (h : r.toValue = r'.toValue) : r.built = r'.built := by
  simp only [ResourceRequirements.toValue, Value.struct.injEq, List.cons.injEq,
    Value.quantities.injEq, Value.slice.injEq] at h
  obtain ⟨hlimits, hrequests, hclaims, -⟩ := h
  simp only [ResourceRequirements.built, hlimits, hrequests, hclaims]

theorem Container.built_of_toValue {c c' : Container} (h : c.toValue = c'.toValue) :
    c.built = c'.built := by
  simp only [Container.toValue, Value.struct.injEq, List.cons.injEq, Value.str.injEq,
    Value.slice.injEq, Value.ptr.injEq] at h
  obtain ⟨-, himage, -, henv, henvFrom, -, hresources, hmounts, hsecurity, -⟩ := h
  have henv := List.map_injective_iff.mpr (fun _ _ => EnvVar.toValue_inj) henv
  have hresources := ResourceRequirements.built_of_toValue hresources
  simp only [Container.built, himage, hresources, henv, henvFrom, hmounts, hsecurity]

theorem Container.map_built_of_toValue {cs cs' : List Container}
    (h : cs.map Container.toValue = cs'.map Container.toValue) :
    cs.map Container.built = cs'.map Container.built := by
  induction cs generalizing cs' with
  | nil =>
      obtain rfl : cs' = [] := by simpa using h
      rfl
  | cons c cs ih =>
      obtain ⟨c', rest, rfl, hc, hrest⟩ := List.map_eq_cons_iff.mp h.symm
      rw [List.map_cons, List.map_cons, Container.built_of_toValue hc.symm, ih hrest.symm]

/-- Pod specs with the same value are built from the same spec. -/
theorem PodSpec.built_of_toValue {p p' : PodSpec} (h : p.toValue = p'.toValue) :
    p.built = p'.built := by
  simp only [PodSpec.toValue, Value.struct.injEq, List.cons.injEq, Value.str.injEq,
    Value.slice.injEq, Value.ptr.injEq, Value.strings.injEq] at h
  obtain ⟨-, hcontainers, hselector, htolerations, haffinity, hsecurity, hsecrets, hpriority,
    hspread, hvolumes, -⟩ := h
  have hcontainers := Container.map_built_of_toValue hcontainers
  simp only [PodSpec.built, hcontainers, hselector, htolerations, haffinity, hsecurity, hsecrets,
    hpriority, hspread, hvolumes]

section Drift

variable {fill : Deployment → Deployment} {cluster : Redkey} {stored : Deployment}

/-- There is no drift when replicas, labels and annotations are the desired
ones and the pod spec has all that is desired. -/
structure InStep (cluster : Redkey) (stored : Deployment) : Prop where
  replicas : stored.replicas = some 1
  labels : stored.metadata.labels = (buildDesiredRobinDeployment cluster).metadata.labels
  annotations : stripManagedAnnotations stored.metadata.annotations =
    (buildDesiredRobinDeployment cluster).metadata.annotations
  podLabels : stored.template.labels = (buildDesiredRobinDeployment cluster).template.labels
  podAnnotations :
    stored.template.annotations = (buildDesiredRobinDeployment cluster).template.annotations
  podSpec : (robinPodSpec cluster).toValue.deepDerivative stored.template.spec.toValue = true

theorem needsUpdate_eq_false :
    robinDeploymentNeedsUpdate stored (buildDesiredRobinDeployment cluster) = false ↔
      InStep cluster stored := by
  simp only [robinDeploymentNeedsUpdate, decide_eq_false_iff_not, not_or, not_not]
  constructor
  · rintro ⟨hreplicas, hlabels, hannotations, hpodLabels, hpodAnnotations, hspec⟩
    exact ⟨hreplicas, hlabels, hannotations, hpodLabels, hpodAnnotations, hspec⟩
  · rintro ⟨hreplicas, hlabels, hannotations, hpodLabels, hpodAnnotations, hspec⟩
    exact ⟨hreplicas, hlabels, hannotations, hpodLabels, hpodAnnotations, hspec⟩

/-- The annotations without the revision, which the Deployment controller
manages. -/
theorem lookup_strip (annotations : StringMap) (k : String) :
    (stripManagedAnnotations annotations).lookup k =
      if k = deploymentRevisionAnnotation then none else annotations.lookup k := by
  unfold stripManagedAnnotations
  split
  case isTrue hk => rw [hk, Finmap.lookup_erase]
  case isFalse hk => rw [Finmap.lookup_erase_ne hk]

theorem strip_insert (annotations : StringMap) (rev : String) :
    stripManagedAnnotations (annotations.insert deploymentRevisionAnnotation rev) =
      stripManagedAnnotations annotations := by
  refine Finmap.ext_lookup fun k => ?_
  rw [lookup_strip, lookup_strip]
  split
  case isTrue => rfl
  case isFalse hk => rw [Finmap.lookup_insert_of_ne _ hk]

/-- A patch keeps the revision that is stored, and takes the others from the
spec. -/
theorem strip_preserve (existing desired : StringMap) :
    stripManagedAnnotations (preserveManagedAnnotations existing desired) =
      stripManagedAnnotations desired := by
  unfold preserveManagedAnnotations
  cases existing.lookup deploymentRevisionAnnotation with
  | none => rfl
  | some rev => exact strip_insert desired rev

/-- A patch brings every built field to the desired value. -/
theorem patched_built (stored : Deployment) :
    (patchedDeployment stored (buildDesiredRobinDeployment cluster)).built =
      (buildDesiredRobinDeployment cluster).built := by
  simp [Deployment.built, patchedDeployment, strip_preserve]

theorem FillsUnset.derivative (hfill : FillsUnset fill) (d : Deployment) :
    d.template.spec.toValue.deepDerivative (fill d).template.spec.toValue = true :=
  Value.deepDerivative_of_keeps (hfill.spec d) (Value.deepDerivative_refl _)

/-- Filling in changes nothing but the pod spec. Replicas are always set. -/
theorem FillsUnset.built (hfill : FillsUnset fill) {d : Deployment} {n : Int}
    (hn : d.replicas = some n) :
    (fill d).built = { d.built with podSpec := (fill d).template.spec.built } := by
  simp only [Deployment.built, hfill.metadata, hfill.replicas d n hn, hfill.labels,
    hfill.annotations, hn]

/-- A call that goes well leaves the ensured Deployment. It is patched under
the key of the stored one. -/
theorem runs_ensureRobinDeployment {w w' : World} {x : Except Err Unit}
    (hkeyed : ∀ existing : Deployment,
      w.store.robin .deployment (robinKey cluster) = some existing →
      existing.metadata.key = robinKey cluster)
    (hrun : Runs (fresh fill fun _ _ => False) (ensureRobinDeployment cluster) w x w') :
    w' = w.ensure fill cluster .deployment := by
  have hpost := hrun.post (ensureRobinDeployment_leads hkeyed w rfl)
  cases x with
  | ok _ => exact hpost
  | error _ => exact hpost.elim

end Drift

/-! ## What Kubernetes does to a stored Deployment -/

section Settled

variable {fill : Deployment → Deployment} {cluster : Redkey} {stored live : Deployment}
variable {rev : String}

/-- The Deployment controller has set the revision, and whatever the operator
leaves unset has been filled in somehow. -/
structure SettledFrom (cluster : Redkey) (stored : Deployment) (rev : String) (live : Deployment) :
    Prop where
  metadata : live.metadata = { stored.metadata with
    annotations := stored.metadata.annotations.insert deploymentRevisionAnnotation rev }
  replicas : live.replicas = stored.replicas
  podLabels : live.template.labels = stored.template.labels
  podAnnotations : live.template.annotations = stored.template.annotations
  podSpec : (robinPodSpec cluster).toValue.Keeps stored.template.spec.toValue
    live.template.spec.toValue

/-- What Kubernetes does is no drift: the revision is stripped, and the pod
spec has kept what was asked for. -/
theorem InStep.settled (h : InStep cluster stored) (hlive : SettledFrom cluster stored rev live) :
    InStep cluster live where
  replicas := hlive.replicas.trans h.replicas
  labels := by rw [hlive.metadata, h.labels]
  annotations := by rw [hlive.metadata, strip_insert, h.annotations]
  podLabels := hlive.podLabels.trans h.podLabels
  podAnnotations := hlive.podAnnotations.trans h.podAnnotations
  podSpec := Value.deepDerivative_of_keeps hlive.podSpec h.podSpec

/-- The annotations of the Deployment are the user's. -/
theorem desired_annotations (cluster : Redkey) :
    (buildDesiredRobinDeployment cluster).metadata.annotations =
      derefMap cluster.spec.annotations := by
  simp [buildDesiredRobinDeployment, mergeMeta]

theorem strip_of_not_mem {annotations : StringMap}
    (h : deploymentRevisionAnnotation ∉ annotations) :
    stripManagedAnnotations annotations = annotations := by
  refine Finmap.ext_lookup fun k => ?_
  rw [lookup_strip]
  split
  case isTrue hk => rw [hk, Finmap.lookup_eq_none.mpr h]
  case isFalse => rfl

/-- With the revision annotation in the spec there is always drift: the
comparison leaves it out of the stored annotations only. -/
theorem InStep.revision_not_mem (h : InStep cluster stored) :
    deploymentRevisionAnnotation ∉ derefMap cluster.spec.annotations := by
  rw [← desired_annotations, ← h.annotations, ← Finmap.lookup_eq_none, lookup_strip, if_pos rfl]

/-- A Deployment that was built for the spec is in step once it is stored. -/
theorem InStep.filled (hfill : FillsUnset fill) {d : Deployment}
    (hbuilt : d.built = (buildDesiredRobinDeployment cluster).built)
    (hspec : d.template.spec = robinPodSpec cluster)
    (hrev : deploymentRevisionAnnotation ∉ derefMap cluster.spec.annotations) :
    InStep cluster (fill d) where
  replicas := hfill.replicas d 1 (congrArg BuiltDeployment.replicas hbuilt)
  labels := by
    rw [hfill.metadata]
    exact congrArg BuiltDeployment.labels hbuilt
  annotations := by
    rw [hfill.metadata]
    refine (congrArg BuiltDeployment.annotations hbuilt).trans (strip_of_not_mem ?_)
    rw [desired_annotations]
    exact hrev
  podLabels := (hfill.labels d).trans (congrArg BuiltDeployment.podLabels hbuilt)
  podAnnotations := (hfill.annotations d).trans (congrArg BuiltDeployment.podAnnotations hbuilt)
  podSpec := by
    rw [← hspec]
    exact hfill.derivative d

/-- What a call leaves is no drift to the next one. -/
theorem inStep_ensured (hfill : FillsUnset fill) (existing : Option Deployment)
    (hrev : deploymentRevisionAnnotation ∉ derefMap cluster.spec.annotations) :
    InStep cluster (ensured fill cluster .deployment existing) := by
  cases existing with
  | none => exact .filled hfill rfl rfl hrev
  | some stored =>
      cases hdrift : robinDeploymentNeedsUpdate stored (buildDesiredRobinDeployment cluster) with
      | true =>
          rw [show ensured fill cluster .deployment (some stored) = _ from if_pos hdrift]
          exact .filled hfill (patched_built stored) rfl hrev
      | false =>
          rw [show ensured fill cluster .deployment (some stored) = stored from
            if_neg (Bool.eq_false_iff.mp hdrift)]
          exact needsUpdate_eq_false.mp hdrift

/-- A call with a Deployment in the store either finds no drift and only
reads, or writes. -/
theorem traces_ensureRobinDeployment {w w' : World} {tr : List (Event Call Resp)}
    {x : Except Err Unit} (hlive : w.store.robin .deployment (robinKey cluster) = some live)
    (htr : Traces (fresh fill fun _ _ => False) (ensureRobinDeployment cluster) w tr x w') :
    (InStep cluster live ∧ (∀ e ∈ tr, e.1.isRead = true) ∧ w' = w) ∨
      (¬ InStep cluster live ∧ ∃ e ∈ tr, e.1.isRead = false) := by
  rcases htr with ⟨r, w₁, rest, hexec, rfl, hrest⟩
  rcases exec_get hexec with ⟨hr, rfl⟩
  obtain rfl : r = .ok live := hr.trans (find_eq_ok.mpr hlive)
  simp only [Prog.bind_ret] at hrest
  -- the one comparison decides whether a patch follows
  split at hrest
  case isTrue hdrift =>
    rcases hrest with ⟨r', w₂, rest', -, rfl, -⟩
    refine Or.inr ⟨?_, ⟨.patch .deployment _, r'⟩, by simp, rfl⟩
    intro hstep
    exact absurd hdrift (Bool.eq_false_iff.mp (needsUpdate_eq_false.mpr hstep))
  case isFalse hdrift =>
    rcases hrest with ⟨rfl, -, rfl⟩
    refine Or.inl ⟨needsUpdate_eq_false.mp (Bool.eq_false_iff.mpr hdrift), ?_, rfl⟩
    simp [Call.isRead]

/-- After a successful call and whatever Kubernetes does to the Deployment
then, the next call with the same spec writes nothing and the revision stays,
exactly when the user's annotations do not set the revision. -/
theorem next_ensure_writes_nothing_iff (hfill : FillsUnset fill) {w w₁ : World}
    (hkeyed : ∀ existing : Deployment,
      w.store.robin .deployment (robinKey cluster) = some existing →
      existing.metadata.key = robinKey cluster)
    (hrun : Runs (fresh fill fun _ _ => False) (ensureRobinDeployment cluster) w (.ok ()) w₁) :
    ∃ stored : Deployment, w₁.store.robin .deployment (robinKey cluster) = some stored ∧
      ∀ rev live, SettledFrom cluster stored rev live → ∀ tr x w₂,
        Traces (fresh fill fun _ _ => False) (ensureRobinDeployment cluster)
          (w₁.setObj .deployment (robinKey cluster) (some live)) tr x w₂ →
        (((∀ e ∈ tr, e.1.isRead = true) ∧ ∃ d₂ : Deployment,
            w₂.store.robin .deployment (robinKey cluster) = some d₂ ∧
            d₂.metadata.annotations.lookup deploymentRevisionAnnotation = some rev) ↔
          deploymentRevisionAnnotation ∉ derefMap cluster.spec.annotations) := by
  obtain rfl := runs_ensureRobinDeployment hkeyed hrun
  refine ⟨_, Store.setObj_self _ _ _ _, ?_⟩
  intro rev live hlive tr x w₂ htr
  have hstored : (((w.ensure fill cluster .deployment).setObj .deployment (robinKey cluster)
      (some live)).store.robin .deployment (robinKey cluster)) = some live :=
    Store.setObj_self _ _ _ _
  rcases traces_ensureRobinDeployment hstored htr with
    ⟨hstep, hreads, rfl⟩ | ⟨hdrift, e, he, hwrite⟩
  · -- no drift, which a revision among the desired annotations would be
    refine iff_of_true ⟨hreads, live, hstored, ?_⟩ hstep.revision_not_mem
    rw [hlive.metadata, Finmap.lookup_insert]
  · constructor
    · rintro ⟨hreads, -⟩
      rw [hreads e he] at hwrite
      cases hwrite
    · -- a patch without drift there is not
      intro hrev
      exact absurd ((inStep_ensured hfill _ hrev).settled hlive) hdrift

end Settled

/-! ### Concrete calls -/

/-- A server that has nothing to fill in. -/
theorem fillsUnset_id : FillsUnset id where
  metadata _ := rfl
  replicas _ _ h := h
  labels _ := rfl
  annotations _ := rfl
  spec _ := .same

/-- The world after a call that is answered. -/
def World.afterEnsure (cluster : Redkey) (w : World) : World :=
  ((ensureRobinDeployment cluster).run (fun c w => w.served id c) w).2

theorem runs_afterEnsure {cluster : Redkey} {w : World}
    (h : ((ensureRobinDeployment cluster).run (fun c w => w.served id c) w).1 = .ok ()) :
    Runs (fresh id fun _ _ => False) (ensureRobinDeployment cluster) w (.ok ())
      (w.afterEnsure cluster) :=
  h ▸ runs_run (World.served_exec id) _ _

/-- The stored Deployment of the sample cluster, with a revision. -/
def revisedDeployment (cluster : Redkey) : Deployment :=
  { buildDesiredRobinDeployment cluster with
    metadata := { (buildDesiredRobinDeployment cluster).metadata with
      annotations := (buildDesiredRobinDeployment cluster).metadata.annotations.insert
        deploymentRevisionAnnotation "1" } }

theorem settledFrom_revised (cluster : Redkey) :
    SettledFrom cluster (buildDesiredRobinDeployment cluster) "1" (revisedDeployment cluster) where
  metadata := rfl
  replicas := rfl
  podLabels := rfl
  podAnnotations := rfl
  podSpec := .same

/-- The calls for a Deployment with a revision. -/
def eventsOnRevised (cluster : Redkey) : List (Event Call Resp) :=
  (ensureRobinDeployment cluster).events (fun c w => w.served id c)
    (((World.initial cluster).afterEnsure cluster).setObj .deployment (robinKey cluster)
      (some (revisedDeployment cluster)))

/-- The revision of the sample cluster's Deployment is left alone. -/
theorem next_ensure_of_sampleCluster :
    eventsOnRevised sampleCluster ≠ [] ∧
    ∀ e ∈ eventsOnRevised sampleCluster, e.1.isRead = true := by
  refine ⟨by decide +kernel, ?_⟩
  have hnone : ∀ existing : Deployment,
      (World.initial sampleCluster).store.robin .deployment (robinKey sampleCluster) =
        some existing → existing.metadata.key = robinKey sampleCluster :=
    fun _ h => by cases h
  rcases next_ensure_writes_nothing_iff fillsUnset_id hnone (runs_afterEnsure rfl)
    with ⟨stored, hstored, hnext⟩
  obtain rfl : stored = buildDesiredRobinDeployment sampleCluster := (Option.some.inj hstored).symm
  exact ((hnext "1" _ (settledFrom_revised sampleCluster) _ _ _
    (traces_events (World.served_exec id) _ _)).mpr (by decide +kernel)).1

/-- The sample cluster, with a revision among the user's annotations. The
operator strips it from one side of the comparison only. -/
def pinnedCluster : Redkey :=
  { sampleCluster with spec := { sampleCluster.spec with
    annotations := some ((∅ : StringMap).insert deploymentRevisionAnnotation "7") } }

/-- Its Deployment is patched again. The only change since the last repair is
the revision that the Deployment controller has set. -/
theorem pinned_revision_patched :
    Runs (fresh id fun _ _ => False) (ensureRobinDeployment pinnedCluster)
      (World.initial pinnedCluster) (.ok ())
      ((World.initial pinnedCluster).afterEnsure pinnedCluster) ∧
    ((World.initial pinnedCluster).afterEnsure pinnedCluster).store.robin .deployment
      (robinKey pinnedCluster) = some (buildDesiredRobinDeployment pinnedCluster) ∧
    SettledFrom pinnedCluster (buildDesiredRobinDeployment pinnedCluster) "1"
      (revisedDeployment pinnedCluster) ∧
    (∃ x w₂, Traces (fresh id fun _ _ => False) (ensureRobinDeployment pinnedCluster)
      (((World.initial pinnedCluster).afterEnsure pinnedCluster).setObj .deployment
        (robinKey pinnedCluster) (some (revisedDeployment pinnedCluster)))
      (eventsOnRevised pinnedCluster) x w₂) ∧
    ∃ e ∈ eventsOnRevised pinnedCluster, e.1.isRead = false := by
  refine ⟨runs_afterEnsure rfl, rfl, settledFrom_revised _,
    ⟨_, _, traces_events (World.served_exec id) _ _⟩, ?_⟩
  have hwrites : (eventsOnRevised pinnedCluster).any (fun e => !e.1.isRead) = true := by
    decide +kernel
  simpa using hwrites

end RedkeyOperator
