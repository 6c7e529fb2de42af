import RedkeyOperator.Controller.Rules
import RedkeyOperator.Controller.Lemmas
import RedkeyOperator.Lib.Locality

/-!
# The footprint of a reconcile

Whatever the specs, the requests of a reconcile are about objects of its own cluster
(`reconcile_uses`): the Redkey, Robin's objects under the name that is built from the Redkey's, the
configs under its label, and configs named after it. The keys that are deleted and patched come
from what was read, so the footprint presupposes that what is read is the cluster's own
(`OwnAnswer`).
-/

namespace RedkeyOperator

open Interleaved Interleaved.Op

/-- The key of a config: the cluster's name, a dash and the sequence. Only
numbers that are not negative give such a name. -/
def configKeyOf (key : NamespacedName) (n : ℕ) : NamespacedName :=
  ⟨key.ns, Decimal.dashed key.name n⟩

/-- The call is about objects of the cluster: its Redkey, Robin's objects
under its name, the configs under its label or named after it. -/
def Call.IsFor (key : NamespacedName) : Call → Prop
  | .getRedkey k _ => k = key
  | .updateRedkeyStatus cluster => cluster.key = key
  | .listConfigs ns label value _ => ns = key.ns ∧ label = clusterLabel ∧ value = key.name
  | .createConfig config => ∃ cluster highest, cluster.key = key ∧
      config = newConfig cluster highest ∧ ∃ n : ℕ, nextSequence highest = n
  | .deleteConfig k => ∃ n, k = configKeyOf key n
  | .get _ k => k = robinKeyOf key
  | .create _ obj => obj.metadata.key = robinKeyOf key
  | .patch _ obj => obj.metadata.key = robinKeyOf key
  | .delete _ k => k = robinKeyOf key
  | .metric _ => True

/-- The config is named after the cluster and its sequence, which is not
negative. -/
def RedkeyConfig.NamedFor (key : NamespacedName) (c : RedkeyConfig) : Prop :=
  ∃ n : ℕ, c.spec.sequence = n ∧ c.key = configKeyOf key n

/-- What is read is the cluster's own. For configs this is a condition on the
store, since a list goes by the label and a deletion by the name. -/
def OwnAnswer (key : NamespacedName) : (c : Call) → Resp c → Prop
  | .getRedkey _ _, .ok cluster => Redkey.key cluster = key
  | .listConfigs _ _ _ _, .ok items => ∀ c ∈ (items : List RedkeyConfig), c.NamedFor key
  | .get _ _, .ok obj => (Obj.metadata obj).key = robinKeyOf key
  | _, _ => True

section Footprint

variable {key : NamespacedName} {cluster : Redkey} {L : List RedkeyConfig} {now : Time}
variable {r : RedkeyReconciler}

/-- A triple that only says which calls are made, from a fact to facts about
the result. -/
abbrev CallsTriple {α : Type} (key : NamespacedName) (A : Prop) (p : Rec α) (Q : α → Prop) : Prop :=
  Triple (Sem.allowing (OwnAnswer key)) (fun c _ _ _ => c.IsFor key) (fun _ => True) (fun _ => A) p
    fun a _ => Q a

theorem calls_quiet : Quiet (Sem.allowing (OwnAnswer key)) fun c _ _ _ => c.IsFor key where
  state _ _ _ _ _ := rfl
  free _ _ _ := trivial

/-- Requests about Robin's objects, as far as they are about those under the
cluster's name. -/
theorem calls_robin {α : Type} {p : Rec α} (A : Prop) (hkey : cluster.key = key)
    (hp : p.Uses (KeyedReads fun k => k = robinKey cluster)
      (Call.OnRobin fun k => k = robinKey cluster)) : CallsTriple key A p fun _ => A := by
  subst hkey
  refine (Triple.of_uses (stable_allowing _) ?_ hp).error fun _ _ => trivial
  intro c _ resp _ hc hA hresp
  cases c with
  -- the object that was read is passed on with its key
  | get k k' =>
      cases resp with
      | ok obj => exact ⟨hresp, hc, hA⟩
      | error e => exact ⟨trivial, hc, hA⟩
  | create k obj => exact ⟨trivial, hc, hA⟩
  | patch k obj => exact ⟨trivial, hc, hA⟩
  | delete k k' => exact ⟨trivial, hc, hA⟩
  | metric e => exact ⟨trivial, trivial, hA⟩
  | _ => cases hc

/-- The list is made under the cluster's label, and returns configs named
after it. -/
theorem calls_list (hkey : cluster.key = key) :
    CallsTriple key True (listConfigs cluster) fun L => ∀ c ∈ L, c.NamedFor key := by
  subst hkey
  refine listConfigs_triple (stable_allowing _) ?_
  intro _ resp _ _ hresp
  refine ⟨⟨rfl, rfl, rfl⟩, ?_⟩
  cases resp with
  | ok items => exact fun c hc => hresp c (mem_sortBySequence.mp hc)
  | error e => trivial

/-- The sequence after one that is not negative is not negative either. -/
theorem exists_nextSequence (hL : ∀ c ∈ L, c.NamedFor key) : ∃ n : ℕ, nextSequence L.getLast? = n := by
  cases hlast : L.getLast? with
  -- the first config
  | none => exact ⟨1, rfl⟩
  | some c =>
      rcases hL c (List.mem_of_getLast? hlast) with ⟨n, hn, -⟩
      exact ⟨n + 1, by simp [nextSequence, hn]⟩

/-- A new config is named after the cluster and the next sequence. -/
theorem calls_create (hkey : cluster.key = key) :
    CallsTriple key (∀ c ∈ L, c.NamedFor key) (createNewConfig cluster L.getLast?) fun _ => True := by
  refine createNewConfig_triple calls_quiet (stable_allowing _) (stable_allowing _) ?_
  intro _ resp _ hL _
  refine ⟨⟨cluster, _, hkey, rfl, exists_nextSequence hL⟩, ?_⟩
  cases resp with
  | ok _ => trivial
  | error e => exact tolerating_error.mpr ⟨fun _ => trivial, fun _ => trivial⟩

/-- The keys that are deleted are those of listed configs. -/
theorem calls_cleanup :
    CallsTriple key (∀ c ∈ L, c.NamedFor key) (cleanupSupersededConfigs L) fun _ => True := by
  refine (cleanupSupersededConfigs_triple calls_quiet (stable_allowing _) L ?_).post fun _ _ _ =>
    trivial
  intro i _ c hc _ _ _ hL _
  rcases hL c (List.mem_of_mem_take hc) with ⟨n, -, hn⟩
  exact ⟨⟨n, hn⟩, hL⟩

/-- The Redkey is read again under the key of the snapshot, and what is
written has the key of what was read. -/
theorem calls_aggregate (hkey : cluster.key = key) :
    CallsTriple key True (aggregateStatus now cluster L) fun _ => True := by
  refine aggregateStatus_triple (B := fun latest _ => Redkey.key latest = key) (fun _ _ => trivial)
    (stable_allowing _) (fun _ => stable_allowing _) ?_ ?_
  · intro _ resp _ _ hresp
    refine ⟨hkey, ?_⟩
    cases resp with
    | ok latest => exact hresp
    | error e => trivial
  · exact fun _ _ latest _ _ _ hlatest _ => ⟨hlatest, trivial⟩

/-- A list of its own, and deletions of what it has returned. -/
theorem calls_deleteAll (hkey : cluster.key = key) :
    CallsTriple key True (deleteAllConfigs cluster) fun _ => True := by
  subst hkey
  -- the answer is kept as it is, since the deletions use it
  refine Triple.bind (Q := fun resp _ => OwnAnswer cluster.key
    (.listConfigs cluster.ns clusterLabel cluster.name .deleteAllConfigs) resp)
    (Triple.request (stable_allowing _) fun _ _ _ _ hresp => ⟨⟨rfl, rfl, rfl⟩, hresp⟩) ?_
  intro resp
  match resp with
  | .error e => exact Triple.throw fun _ _ => trivial
  | .ok items =>
      refine ((deleteConfigs_triple
        (A := fun _ _ => ∀ c ∈ (items : List RedkeyConfig), c.NamedFor cluster.key)
        (fun _ => stable_allowing _) items ?_).post fun _ _ _ => trivial)
      intro c rest hrest _ resp _ hitems _
      rcases hitems c (hrest.subset List.mem_cons_self) with ⟨n, -, hn⟩
      refine ⟨⟨n, hn⟩, ?_⟩
      cases resp with
      | ok _ => exact hitems
      | error e => exact tolerating_error.mpr ⟨fun _ => hitems, fun _ => trivial⟩

theorem calls_scaledToZero (hkey : cluster.key = key) :
    CallsTriple key True (updateStatusScaledToZero now cluster) fun _ => True := by
  refine api_triple (stable_allowing _) ?_
  intro _ resp _ _ _
  refine ⟨hkey, ?_⟩
  cases resp with
  | ok _ => trivial
  | error _ => trivial

theorem calls_reconcileConfigs (hkey : cluster.key = key) :
    CallsTriple key True (reconcileConfigs r now cluster) fun _ => True := by
  have hrobin : (fun k => k = robinKey cluster) (robinKey cluster) := rfl
  refine reconcileConfigs_triple (fun L _ => ∀ c ∈ L, c.NamedFor key) (fun _ => True)
    (fun L _ => ∀ c ∈ L, c.NamedFor key) (fun _ _ => True) calls_quiet (stable_allowing _)
    (stable_allowing _) (calls_robin True hkey (ensureRBAC_uses hrobin))
    (calls_robin True hkey (ensureRobinDeployment_uses hrobin)) (calls_list hkey)
    (fun L _ => calls_create hkey) (calls_list hkey) (fun L _ _ _ hL => hL) (fun _ _ => trivial)
    ?_ fun L => calls_aggregate hkey
  exact fun L _ => calls_cleanup.post fun _ _ _ => ⟨fun _ => trivial, fun _ => trivial⟩

theorem calls_reconcileScaleToZero (hkey : cluster.key = key) :
    CallsTriple key True (reconcileScaleToZero r now cluster) fun _ => True := by
  have hrobin : (fun k => k = robinKey cluster) (robinKey cluster) := rfl
  refine reconcileScaleToZero_triple (fun L _ => ∀ c ∈ L, c.NamedFor key) (calls_list hkey) ?_ ?_ ?_ ?_
  · -- case A
    exact (calls_scaledToZero hkey).pre fun _ _ => trivial
  · -- case B: the new config is numbered after the last one of the list
    intro L c hlast _
    refine Triple.bind (calls_robin _ hkey (ensureRBAC_uses hrobin)) fun _ => ?_
    refine Triple.bind (calls_robin _ hkey (ensureRobinDeployment_uses hrobin)) fun _ => ?_
    rw [← hlast]
    exact calls_create hkey
  · -- case C
    -- case D
    intro L c _ _ _
    refine Triple.bind (calls_robin _ hkey (deleteRobinDeployment_uses hrobin)) fun _ => ?_
    refine Triple.bind (calls_robin _ hkey (deleteRBAC_uses hrobin)) fun _ => ?_
    exact (Triple.bind (calls_deleteAll hkey) fun _ => calls_scaledToZero hkey).pre
      fun _ _ => trivial
  · intro L c _ _ _
    refine Triple.bind (calls_robin _ hkey (ensureRBAC_uses hrobin)) fun _ => ?_
    refine Triple.bind (calls_robin _ hkey (ensureRobinDeployment_uses hrobin)) fun _ => ?_
    exact (calls_aggregate hkey).pre fun _ _ => trivial

/-- The snapshot has the key of the request, so that both paths work for the
same cluster. -/
theorem calls_reconcile : CallsTriple key True (reconcile r now key) fun _ => True := by
  refine reconcile_triple (fun cluster _ => cluster.key = key) calls_quiet (stable_allowing _)
    (stable_allowing _) (stable_allowing _) ?_ ?_ ?_
  · intro _ resp _ _ hresp
    refine ⟨rfl, ?_⟩
    cases resp with
    | ok cluster => exact hresp
    | error e => exact tolerating_error.mpr ⟨fun _ => trivial, fun _ => trivial⟩
  · exact fun cluster _ s hkey => calls_reconcileScaleToZero hkey s trivial
  · exact fun cluster _ s hkey => calls_reconcileConfigs hkey s trivial

/-- A reconcile deals with the objects of its own cluster only. -/
theorem reconcile_uses : (reconcile r now key).Uses (OwnAnswer key) (Call.IsFor key) := by
  refine uses_of_wp ?_ (calls_reconcile () trivial)
  intro c
  refine ⟨lost c, ?_⟩
  cases c <;> trivial

end Footprint

end RedkeyOperator
