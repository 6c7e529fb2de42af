import RedkeyOperator.Controller.Footprint

/-!
# Ownership

Every object the operator creates carries a controller reference to its Redkey, and a patch keeps
the one that is there (`reconcile_owned`). Events about an object are turned into requests by that
reference alone (`SetupWithManager`), and the garbage collector goes by it too.
-/

namespace RedkeyOperator

open Interleaved Interleaved.Op

/-- `Owns`: an event about the object asks for a reconcile of the Redkey that
controls it. -/
def ObjectMeta.ownerRequest (m : ObjectMeta) : Option NamespacedName :=
  m.controller.map fun name => ⟨m.ns, name⟩

/-- The metadata of one of Robin's objects of the cluster: under the name
built from the Redkey's, and controlled by the Redkey. -/
structure ObjectMeta.RobinOf (key : NamespacedName) (m : ObjectMeta) : Prop where
  keyed : m.key = robinKeyOf key
  owned : m.ownerRequest = some key

/-- A patch of the operator changes labels and annotations, and neither of
these matters for the owner. -/
theorem ObjectMeta.RobinOf.relabel {key : NamespacedName} {m : ObjectMeta} (h : m.RobinOf key)
    (labels annotations : StringMap) :
    { m with labels := labels, annotations := annotations }.RobinOf key :=
  ⟨h.keyed, h.owned⟩

/-- What the call stores is one of Robin's objects of the cluster, with the
Redkey as its controller. -/
def Call.WritesOwned (key : NamespacedName) : Call → Prop
  | .create _ obj => obj.metadata.RobinOf key
  | .patch _ obj => obj.metadata.RobinOf key
  | _ => True

/-- So is what was read. A patch starts from the object that was read, so the
operator can only keep a reference that is there. -/
def ReadsOwned (key : NamespacedName) : (c : Call) → Resp c → Prop
  | .getRedkey _ _, .ok cluster => Redkey.key cluster = key
  | .get _ _, .ok obj => (Obj.metadata obj).RobinOf key
  | _, _ => True

section Robin

variable {cluster : Redkey}

/-- New RBAC objects get the controller reference. -/
theorem rbacMeta_owned : (rbacMeta cluster).RobinOf cluster.key := ⟨rfl, rfl⟩

/-- What is read is owned, and so is what the continuations write if they are
given that. -/
theorem withExisting_owned {key key' : NamespacedName} {k : Kind} {absent : Rec Unit}
    {present : Obj k → Rec Unit}
    (habsent : Op.Uses (ReadsOwned key) (Call.WritesOwned key) absent)
    (hpresent : ∀ obj : Obj k, obj.metadata.RobinOf key →
      Op.Uses (ReadsOwned key) (Call.WritesOwned key) (present obj)) :
    Op.Uses (ReadsOwned key) (Call.WritesOwned key) (withExisting k key' absent present) := by
  refine ⟨trivial, ?_⟩
  intro r hr
  match r with
  | .ok obj => exact hpresent obj hr
  | .error .notFound => exact habsent
  | .error .alreadyExists => trivial
  | .error .conflict => trivial
  | .error .other => trivial

/-- Created with the reference, or patched over an object that has it. The
Role and the binding below are written in the same way. -/
theorem ensureServiceAccount_owned :
    Op.Uses (ReadsOwned cluster.key) (Call.WritesOwned cluster.key)
      (ensureServiceAccount cluster) := by
  refine withExisting_owned (uses_api rbacMeta_owned) ?_
  intro existing hmeta
  dsimp only
  split
  · exact uses_api (hmeta.relabel _ _)
  · trivial

theorem ensureRole_owned :
    Op.Uses (ReadsOwned cluster.key) (Call.WritesOwned cluster.key) (ensureRole cluster) := by
  refine withExisting_owned (uses_api rbacMeta_owned) ?_
  intro existing hmeta
  dsimp only
  split
  · exact uses_api (hmeta.relabel _ _)
  · trivial

/-- A binding that has to be replaced is deleted, and created again with the
reference. -/
theorem ensureRoleBinding_owned :
    Op.Uses (ReadsOwned cluster.key) (Call.WritesOwned cluster.key)
      (ensureRoleBinding cluster) := by
  refine withExisting_owned (uses_api rbacMeta_owned) ?_
  intro existing hmeta
  dsimp only
  split
  · -- the replacement does not depend on what was there
    exact uses_bind (uses_api trivial) fun _ => uses_api rbacMeta_owned
  · split
    · exact uses_api (hmeta.relabel _ _)
    · trivial

theorem ensureRBAC_owned :
    Op.Uses (ReadsOwned cluster.key) (Call.WritesOwned cluster.key) (ensureRBAC cluster) :=
  uses_bind ensureServiceAccount_owned fun _ =>
    uses_bind ensureRole_owned fun _ => ensureRoleBinding_owned

/-- The Deployment, too, is created with the reference or patched. -/
theorem ensureRobinDeployment_owned :
    Op.Uses (ReadsOwned cluster.key) (Call.WritesOwned cluster.key)
      (ensureRobinDeployment cluster) := by
  -- the metadata of a new Deployment is built like that of the RBAC objects
  have hnew : (buildDesiredRobinDeployment cluster).metadata.RobinOf cluster.key := ⟨rfl, rfl⟩
  refine withExisting_owned (uses_bind (uses_api hnew) fun _ => uses_metric trivial) ?_
  intro existing hmeta
  split
  · exact uses_bind (uses_api (hmeta.relabel _ _)) fun _ => uses_metric trivial
  · trivial

/-- A deletion stores nothing. -/
theorem deleteIfPresent_owned {key key' : NamespacedName} {k : Kind} {text : String} :
    Op.Uses (ReadsOwned key) (Call.WritesOwned key) (deleteIfPresent k key' text) := by
  refine ⟨trivial, ?_⟩
  intro r _
  match r with
  | .ok _ => trivial
  | .error .notFound => trivial
  | .error .alreadyExists => trivial
  | .error .conflict => trivial
  | .error .other => trivial

theorem deleteRBAC_owned {key : NamespacedName} :
    Op.Uses (ReadsOwned key) (Call.WritesOwned key) (deleteRBAC cluster) :=
  uses_bind deleteIfPresent_owned fun _ =>
    uses_bind deleteIfPresent_owned fun _ => deleteIfPresent_owned

end Robin

section Owned

variable {key : NamespacedName} {cluster : Redkey} {L : List RedkeyConfig} {now : Time}
variable {r : RedkeyReconciler}

/-- A triple that only says that what is stored is owned. -/
abbrev OwnedTriple {α : Type} (key : NamespacedName) (p : Rec α) : Prop :=
  Triple (Sem.allowing (ReadsOwned key)) (fun c _ _ _ => c.WritesOwned key) (fun _ => True)
    (fun _ => True) p fun _ _ => True

/-- Counters store nothing. -/
theorem owned_quiet :
    Quiet (Sem.allowing (ReadsOwned key)) fun c _ _ _ => c.WritesOwned key where
  state _ _ _ _ _ := rfl
  free _ _ _ := trivial

/-- From the requests of a part of the program to its triple. -/
theorem owned_robin {α : Type} {p : Rec α} (hp : p.Uses (ReadsOwned key) (Call.WritesOwned key)) :
    OwnedTriple key p :=
  (Triple.of_uses (stable_allowing _) (fun _ _ _ _ hc _ hresp => ⟨hresp, hc, trivial⟩) hp).error
    fun _ _ => trivial

/-- The requests about configs and the status store no objects of Robin, so
each of the remaining rules holds for lack of anything to show. -/
theorem owned_list : OwnedTriple key (listConfigs cluster) := by
  refine listConfigs_triple (stable_allowing _) ?_
  intro _ resp _ _ _
  refine ⟨trivial, ?_⟩
  cases resp <;> trivial

theorem owned_create {highest : Option RedkeyConfig} :
    OwnedTriple key (createNewConfig cluster highest) := by
  refine createNewConfig_triple owned_quiet (stable_allowing _) (stable_allowing _) ?_
  intro _ resp _ _ _
  refine ⟨trivial, ?_⟩
  cases resp with
  | ok _ => trivial
  | error e => exact tolerating_error.mpr ⟨fun _ => trivial, fun _ => trivial⟩

theorem owned_aggregate : OwnedTriple key (aggregateStatus now cluster L) := by
  refine aggregateStatus_triple (B := fun _ _ => True) (fun _ _ => trivial) (stable_allowing _)
    (fun _ => stable_allowing _) ?_ fun _ _ _ _ _ _ _ _ => ⟨trivial, trivial⟩
  intro _ resp _ _ _
  refine ⟨trivial, ?_⟩
  cases resp <;> trivial

theorem owned_scaledToZero : OwnedTriple key (updateStatusScaledToZero now cluster) := by
  refine api_triple (stable_allowing _) ?_
  intro _ resp _ _ _
  refine ⟨trivial, ?_⟩
  cases resp <;> trivial

theorem owned_deleteAll : OwnedTriple key (deleteAllConfigs cluster) := by
  refine Triple.bind (Q := fun _ _ => True)
    (Triple.request (stable_allowing _) fun _ _ _ _ _ => ⟨trivial, trivial⟩) ?_
  intro resp
  match resp with
  | .error e => exact Triple.throw fun _ _ => trivial
  | .ok items =>
      refine deleteConfigs_triple (A := fun _ _ => True) (fun _ => stable_allowing _) items ?_
      intro c rest _ _ resp _ _ _
      refine ⟨trivial, ?_⟩
      cases resp with
      | ok _ => trivial
      | error e => exact tolerating_error.mpr ⟨fun _ => trivial, fun _ => trivial⟩

/-- The path of a cluster with primaries. -/
theorem owned_reconcileConfigs (hkey : cluster.key = key) :
    OwnedTriple key (reconcileConfigs r now cluster) := by
  subst hkey
  refine reconcileConfigs_triple (fun _ _ => True) (fun _ => True) (fun _ _ => True)
    (fun _ _ => True) owned_quiet (stable_allowing _) (stable_allowing _)
    (owned_robin ensureRBAC_owned) (owned_robin ensureRobinDeployment_owned) owned_list
    (fun _ _ => owned_create) owned_list (fun _ _ _ _ _ => trivial) (fun _ _ => trivial) ?_
    fun _ => owned_aggregate
  intro L _
  refine (cleanupSupersededConfigs_triple owned_quiet (stable_allowing _) L ?_).post
    fun _ _ _ => ⟨fun _ => trivial, fun _ => trivial⟩
  exact fun _ _ _ _ _ _ _ _ _ => ⟨trivial, trivial⟩

/-- The four cases of the scale-to-zero path; the first one writes the status
only. -/
theorem owned_reconcileScaleToZero (hkey : cluster.key = key) :
    OwnedTriple key (reconcileScaleToZero r now cluster) := by
  subst hkey
  refine reconcileScaleToZero_triple (fun _ _ => True) owned_list owned_scaledToZero ?_ ?_ ?_
  · -- case B
    intro L c _ _
    refine Triple.bind (owned_robin ensureRBAC_owned) fun _ => ?_
    exact Triple.bind (owned_robin ensureRobinDeployment_owned) fun _ => owned_create
  · -- case C
    -- case D
    intro L c _ _ _
    refine Triple.bind (owned_robin deleteIfPresent_owned) fun _ => ?_
    refine Triple.bind (owned_robin deleteRBAC_owned) fun _ => ?_
    exact Triple.bind owned_deleteAll fun _ => owned_scaledToZero
  · intro L c _ _ _
    refine Triple.bind (owned_robin ensureRBAC_owned) fun _ => ?_
    exact Triple.bind (owned_robin ensureRobinDeployment_owned) fun _ => owned_aggregate

/-- What a reconcile stores is controlled by its Redkey, as long as what it
reads is. The reference is set on creation only: an object that has lost it
stays without. -/
theorem reconcile_owned :
    (reconcile r now key).Uses (ReadsOwned key) (Call.WritesOwned key) := by
  have htriple : OwnedTriple key (reconcile r now key) := by
    refine reconcile_triple (fun cluster _ => cluster.key = key) owned_quiet (stable_allowing _)
      (stable_allowing _) (stable_allowing _) ?_ ?_ ?_
    · intro _ resp _ _ hresp
      refine ⟨trivial, ?_⟩
      cases resp with
      | ok cluster => exact hresp
      | error e => exact tolerating_error.mpr ⟨fun _ => trivial, fun _ => trivial⟩
    · exact fun cluster _ s hkey => owned_reconcileScaleToZero hkey s trivial
    · exact fun cluster _ s hkey => owned_reconcileConfigs hkey s trivial
  -- there is an answer to every request, so that no request is vacuous
  refine uses_of_wp ?_ (htriple () trivial)
  intro c
  refine ⟨lost c, ?_⟩
  cases c <;> trivial

end Owned

end RedkeyOperator
