import RedkeyOperator.Lib.Keyed
import RedkeyOperator.Controller.Robin

/-!
# Robin's environment

`mergeEnvVars` keeps the position of every name in a map beside the list it grows. In step with
each other, the two are what the variables listed so far come to (`EnvMerge.Settles`), so a merge
onto a base without repeated names is `settle` of the base followed by the overrides.

Robin learns which cluster it runs from two variables. They are merged before the template's
variables and again after them, and so the template can neither change nor move them.
-/

namespace RedkeyOperator

open Keyed

/-! ## Merging -/

/-- The list is what the variables listed so far come to, and the map is its
index. -/
structure EnvMerge.Settles (m : EnvMerge) (listed : List EnvVar) : Prop where
  merged : m.merged = settle EnvVar.name listed
  indexed : Indexes m.indexByName (keys EnvVar.name listed)

/-- One turn of the loop of `mergeEnvVars` makes one more definition. -/
theorem EnvMerge.Settles.add {m : EnvMerge} {listed : List EnvVar} (h : m.Settles listed)
    (envVar : EnvVar) : (m.add envVar).Settles (listed ++ [envVar]) := by
  cases hlookup : m.indexByName.lookup envVar.name with
  -- a known name is overwritten in place
  | some index =>
      have hplace := (h.indexed envVar.name index).1 hlookup
      have hadd : m.add envVar = { m with merged := m.merged.set index envVar } := by
        simp [EnvMerge.add, hlookup]
      rw [hadd]
      constructor
      · rw [settle_concat_known hplace, h.merged]
      · rw [keys_concat_known (List.mem_of_getElem? hplace)]
        exact h.indexed
  -- a new name goes to the end, and its position is entered
  | none =>
      have hnew := h.indexed.notMem hlookup
      have hlength : m.merged.length = (keys EnvVar.name listed).length := by
        rw [h.merged, ← map_settle, List.length_map]
      have hadd : m.add envVar = {
          merged := m.merged ++ [envVar]
          indexByName := m.indexByName.insert envVar.name m.merged.length } := by
        simp [EnvMerge.add, hlookup]
      rw [hadd]
      constructor
      · rw [settle_concat_new hnew, h.merged]
      · rw [keys_concat_new hnew, hlength]
        exact h.indexed.concat hnew

theorem EnvMerge.Settles.foldl {m : EnvMerge} {listed : List EnvVar} (h : m.Settles listed)
    (overrides : List EnvVar) : (overrides.foldl EnvMerge.add m).Settles (listed ++ overrides) := by
  induction overrides generalizing m listed with
  | nil => simpa using h
  | cons envVar overrides ih => simpa using ih (h.add envVar)

/-- A merge makes the definitions of the base and then those of the overrides.
The base must not repeat a name: the source keeps both entries of a repeated
name and indexes the second. -/
theorem mergeEnvVars_eq_settle {base : List EnvVar} (hbase : (base.map EnvVar.name).Nodup)
    (overrides : List EnvVar) :
    mergeEnvVars base overrides = settle EnvVar.name (base ++ overrides) := by
  -- the base is settled before the loop starts
  have hstart : EnvMerge.Settles
      ⟨base, base.zipIdx.foldl (fun m e => m.insert e.1.name e.2) ∅⟩ base := by
    constructor
    · rw [settle_of_nodup hbase]
    · rw [keys_of_nodup hbase]
      exact indexes_zipIdx hbase
  exact (hstart.foldl overrides).merged

example :
    (mergeEnvVars [{ name := "A", value := "1" }, { name := "B", value := "2" }]
      [{ name := "C", value := "3" }, { name := "A", value := "4" },
        { name := "C", value := "5" }]).map (fun e => (e.name, e.value)) =
      [("A", "4"), ("B", "2"), ("C", "5")] := by
  decide +kernel

/-! ## The container -/

/-- The variables of the template's first container. -/
def templateEnv (cluster : Redkey) : List EnvVar :=
  match cluster.spec.robin.template with
  | none => []
  | some tpl =>
      match tpl.spec.containers with
      | [] => []
      | src :: _ => src.env

theorem nodup_robinDefaultEnvVars (cluster : Redkey) :
    ((robinDefaultEnvVars cluster).map EnvVar.name).Nodup := by
  simp [robinDefaultEnvVars]

/-- The template's container is merged over the defaults once; an empty list
of variables is not merged at all. -/
theorem override_env (cluster : Redkey) (src : Container) :
    ((robinBaseContainer cluster).override src).env =
      settle EnvVar.name (robinDefaultEnvVars cluster ++ src.env) := by
  have hdefaults := nodup_robinDefaultEnvVars cluster
  change (if src.env.isEmpty then robinDefaultEnvVars cluster
    else mergeEnvVars (robinDefaultEnvVars cluster) src.env) = _
  by_cases hempty : src.env.isEmpty
  · rw [if_pos hempty, List.isEmpty_iff.1 hempty, List.append_nil, settle_of_nodup hdefaults]
  · rw [if_neg hempty, mergeEnvVars_eq_settle hdefaults]

/-- The defaults are merged onto what the template left, which repeats no
name. -/
theorem mergeEnvVars_settle (listed defaults : List EnvVar) :
    mergeEnvVars (settle EnvVar.name listed) defaults = settle EnvVar.name (listed ++ defaults) := by
  rw [mergeEnvVars_eq_settle (nodup_settle listed), settle_settle_append]

/-- Whatever the template says, the defaults are defined first and again
last. -/
theorem robinContainer_env (cluster : Redkey) : (robinContainer cluster).env =
    settle EnvVar.name
      (robinDefaultEnvVars cluster ++ templateEnv cluster ++ robinDefaultEnvVars cluster) := by
  have hdefaults := nodup_robinDefaultEnvVars cluster
  unfold robinContainer templateEnv
  cases cluster.spec.robin.template with
  | none =>
      -- nothing is merged, which is as good as merging the defaults onto themselves
      rw [settle_protected hdefaults]
      exact (List.append_nil _).symm
  | some tpl =>
      cases hcontainers : tpl.spec.containers with
      | nil =>
          simp only [hcontainers, List.append_nil]
          exact mergeEnvVars_eq_settle hdefaults _
      -- both merges, the template's and that of the defaults
      | cons src rest =>
          simp only [hcontainers, override_env]
          exact mergeEnvVars_settle _ _

/-- Only the first container of a template is looked at, and only one is
deployed. -/
theorem robinPodSpec_containers (cluster : Redkey) :
    (robinPodSpec cluster).containers = [robinContainer cluster] := by
  unfold robinPodSpec
  split <;> rfl

/-- Robin's identity is not the template's to set. The container's variables
are the two that name the cluster, and after them those the template lists
under any other name: each name once, in the order in which the template first
lists them, and as the template defines it last. -/
theorem robin_identity_protected (cluster : Redkey) :
    ∃ container, (buildDesiredRobinDeployment cluster).template.spec.containers = [container] ∧
      (container.env.map EnvVar.name).Nodup ∧
      ∃ others,
        container.env =
          { name := "CLUSTER_NAME", value := cluster.name, valueFrom := none } ::
          { name := "NAMESPACE", value := cluster.ns, valueFrom := none } :: others ∧
        others.map EnvVar.name =
          ((templateEnv cluster).map EnvVar.name).eraseDups.filter
            (· ∉ ["CLUSTER_NAME", "NAMESPACE"]) ∧
        ∀ envVar ∈ others, ∃ before after, templateEnv cluster = before ++ envVar :: after ∧
          ∀ later ∈ after, later.name ≠ envVar.name := by
  have hdefaults := nodup_robinDefaultEnvVars cluster
  have hreserved : keys EnvVar.name (robinDefaultEnvVars cluster) = ["CLUSTER_NAME", "NAMESPACE"] :=
    keys_of_nodup hdefaults
  refine ⟨robinContainer cluster, robinPodSpec_containers cluster, ?_, ?_⟩
  · rw [robinContainer_env]
    exact nodup_settle _
  · refine ⟨settle EnvVar.name
      ((templateEnv cluster).filter (·.name ∉ ["CLUSTER_NAME", "NAMESPACE"])), ?_, ?_, ?_⟩
    · rw [robinContainer_env, settle_protected hdefaults, hreserved]
      rfl
    · rw [map_settle]
      exact keys_filter (fun name => name ∉ ["CLUSTER_NAME", "NAMESPACE"]) _
    · intro envVar hmem
      have hlast := last?_of_mem_settle_filter
        (fun name => name ∉ ["CLUSTER_NAME", "NAMESPACE"]) (templateEnv cluster) hmem
      exact (last?_eq_some_iff.1 hlast).2

end RedkeyOperator
