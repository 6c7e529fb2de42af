import RedkeyOperator.System.Fresh
import RedkeyOperator.Lib.Trace

/-!
# Recognising a config

A config carries what the operator needs to find it again: the label by which it is listed, the
sequence by which it comes last, and the generation it was made for, as decimal digits. The user's
labels and annotations go under the same keys at most, and lose there.
-/

namespace RedkeyOperator

open Interleaved

section Recognition

variable {fill : Deployment → Deployment} {env : World → World → Prop} {cluster : Redkey}
variable {highest : Option RedkeyConfig} {w w' : World} {tr : List (Event Call Resp)}

/-- A create request that was granted has stored the config, and no other call
of `createNewConfig` changes anything. -/
theorem traces_createNewConfig {config : RedkeyConfig} {x : Except Err Unit}
    (h : Traces (fresh fill env) (createNewConfig cluster highest) w tr x w')
    (hgranted : ⟨.createConfig config, .ok ()⟩ ∈ tr) :
    config = newConfig cluster highest ∧ w' = w.addConfig config := by
  obtain ⟨r, w₁, rest, hexec, rfl, hrest⟩ := h
  rcases exec_createConfig hexec with ⟨rfl, -, rfl⟩ | ⟨rfl, -, rfl⟩
  · -- one more call, for the metric
    obtain ⟨r', w₂, rest, hmetric, rfl, rfl, -, rfl⟩ := hrest
    obtain rfl := exec_metric hmetric
    rcases List.mem_cons.mp hgranted with heq | hmem
    · cases heq
      exact ⟨rfl, rfl⟩
    · simp at hmem
  · obtain ⟨rfl, -, -⟩ := hrest
    simp at hgranted

theorem traces_listConfigs {items : List RedkeyConfig}
    (h : Traces (fresh fill env) (listConfigs cluster) w tr (.ok items) w') :
    ∃ listed, listed.Perm (w.configsOf cluster.key) ∧ items = sortBySequence listed := by
  obtain ⟨r, w₁, rest, hexec, rfl, hrest⟩ := h
  obtain ⟨⟨listed, hlisted, rfl⟩, rfl⟩ := exec_listConfigs hexec
  obtain ⟨-, hitems, -⟩ := hrest
  exact ⟨listed, hlisted, Except.ok.inj hitems⟩

/-- The config that a create request stores is the last one of the next list;
it is of the generation it was made for, for this version of the Redkey and
for every other one. -/
theorem created_config_recognised (fill : Deployment → Deployment)
    (hrange : Decimal.InInt64 cluster.generation) {L : List RedkeyConfig}
    (hperm : L.Perm (w.configsOf cluster.key))
    (hsorted : L.Pairwise fun c d => c.spec.sequence ≤ d.spec.sequence) {config : RedkeyConfig}
    (h : Traces (fresh fill fun _ _ => False) (createNewConfig cluster L.getLast?) w tr (.ok ()) w')
    (hgranted : ⟨.createConfig config, .ok ()⟩ ∈ tr) :
    config ∈ w'.store.configs ∧
    (∀ tr' items w'', Traces (fresh fill fun _ _ => False) (listConfigs cluster) w' tr' (.ok items)
      w'' → items.getLast? = some config) ∧
    needsNewConfig cluster (some config) = false ∧
    ∀ cluster' : Redkey, needsNewConfig cluster' (some config) = true ↔
      cluster.generation < cluster'.generation ∧
        cluster'.status.observedGeneration < cluster'.generation := by
  obtain ⟨rfl, rfl⟩ := traces_createNewConfig h hgranted
  have hgen := newConfig_generation cluster L.getLast? hrange
  refine ⟨by simp [World.addConfig], ?_, ?_, fun cluster' => needsNewConfig_iff hgen⟩
  · intro tr' items w'' hlist
    obtain ⟨listed, hlisted, rfl⟩ := traces_listConfigs hlist
    -- the new config has the label of the cluster
    have hconfigs : (w.addConfig (newConfig cluster L.getLast?)).configsOf cluster.key =
        w.configsOf cluster.key ++ [newConfig cluster L.getLast?] := by
      have hselected := newConfig_selected cluster L.getLast?
      simp only [World.configsOf, World.addConfig, List.filter_append]
      exact congrArg _ (List.filter_cons_of_pos hselected)
    -- its number is above all that are listed with it, so it comes last in any order of the list
    rw [hconfigs] at hlisted
    refine getLast?_sortBySequence hlisted fun d hd => ?_
    exact lt_nextSequence hsorted (hperm.mem_iff.mpr hd)
  · -- its own generation is not newer than itself
    rw [Bool.eq_false_iff]
    intro hneeds
    exact lt_irrefl _ ((needsNewConfig_iff hgen).mp hneeds).1

end Recognition

/-- A cluster whose user sets the keys of the operator. -/
def impostor : Redkey :=
  { sampleCluster with
    spec := {
      primaries := 3
      labels := some ((∅ : StringMap).insert clusterLabel "other")
      annotations := some ((∅ : StringMap).insert generationAnnotation "17") } }

/-- The operator's label and annotation win over the user's. -/
theorem config_of_impostor_recognised :
    needsNewConfig impostor (some (newConfig impostor none)) = false ∧
      ((needsNewConfig { impostor with generation := 2 } (some (newConfig impostor none)) = true) ↔
        (1 : Int) < 2 ∧ (0 : Int) < 2) := by
  have hrun := traces_events (M := fresh id fun _ _ => False) (World.served_exec id)
    (createNewConfig impostor [].getLast?) (World.initial impostor)
  have hgranted : (⟨.createConfig (newConfig impostor none), .ok ()⟩ : Event Call Resp) ∈
      (createNewConfig impostor [].getLast?).events (fun c w => w.served id c)
        (World.initial impostor) := List.mem_cons_self
  obtain ⟨-, -, hnot, hlater⟩ := created_config_recognised id (by decide)
    (List.Perm.refl _) List.Pairwise.nil hrun hgranted
  exact ⟨hnot, hlater { impostor with generation := 2 }⟩

end RedkeyOperator
