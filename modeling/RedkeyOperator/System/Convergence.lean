import RedkeyOperator.System.Tracking
import RedkeyOperator.System.FixedPoint
import RedkeyOperator.System.Staffing

/-!
# Convergence

What becomes of a cluster once its users stop editing it. From any state the system can get into,
with requests lost and reconciles cut short on the way and from then on:

1. a reconcile that succeeds leaves a config for the current spec on top (`Tracking.Observed`);
2. Robin finishes the configs it has been given, that one among them;
3. the next reconcile that succeeds deletes all the others and publishes the result.

From then on the cluster is `Settled`: one config, Applied, a snapshot of the current spec, Robin's
four objects in the store, and a status that says so. As long as nobody edits the spec, neither
reconciles nor lost requests nor Robin's reports change that (`converges`).
-/

namespace RedkeyOperator

open Interleaved Interleaved.Op

/-- One config, Applied, with the current spec, Robin's objects in post, and
the status says so. -/
structure Settled (key : NamespacedName) (live : Redkey) (w : World) : Prop where
  stored : w.store.redkeys key = some live
  config : ∃ c highest, w.configsOf key = [c] ∧ c.Same (newConfig live highest) ∧
    c.status.configPhase = .applied
  robin : ∀ k, InPost key k w
  observed : live.status.observedGeneration = live.generation
  replicas : live.status.replicas = live.spec.primaries
  phase : live.status.phase = if live.status.status = .error then .error else .ready
  recorded : live.spec.ephemeral = false → 0 < live.spec.primaries →
    live.status.lastAppliedPrimaries = live.spec.primaries ∧
    live.status.lastAppliedReplicasPerPrimary = live.spec.replicasPerPrimary

/-- Robin has finished every config of the cluster. Some of them it may have
skipped. -/
def AllFinished (key : NamespacedName) (w : World) : Prop :=
  ∀ c ∈ w.configsOf key, isTerminalConfigPhase c.status.configPhase = true

/-- The operator and Robin, once nobody edits the spec any more; any call may
still be lost. -/
abbrev calmRuns (fill : Deployment → Deployment) (key : NamespacedName) : Sem Call Resp World :=
  trackedRuns fill key fun _ _ _ => False

/-- The Redkey stays at a generation and a spec. This holds from the last edit
on. -/
def Pinned (g : Int) (spec : RedkeySpec) (live : Redkey) : Prop :=
  live.generation = g ∧ live.spec = spec

/-- And the status has observed it. This holds from the first reconcile on
that succeeds after the last edit. -/
def Caught (g : Int) (spec : RedkeySpec) (live : Redkey) : Prop :=
  Pinned g spec live ∧ live.status.observedGeneration = g

/-- Status writes change neither generation nor spec. -/
theorem keeps_pinned (g : Int) (spec : RedkeySpec) :
    Keeps (fun _ _ _ => False) (Pinned g spec) where
  ranged _ _ _ h := h.elim
  edit _ _ _ h := h.elim
  write _ _ _ h _ _ := h

/-- A reconcile that started from such a Redkey observes the same generation
again. -/
theorem keeps_caught (g : Int) (spec : RedkeySpec) :
    Keeps (fun _ _ _ => False) (Caught g spec) where
  ranged _ _ _ h := h.elim
  edit _ _ _ h := h.elim
  write _ _ _ h hcluster hobs := ⟨h.1, hobs.trans hcluster.1.1⟩

/-- Before that, nothing is asked of the Redkey. -/
theorem keeps_edits : Keeps Edits fun _ => True where
  ranged _ _ _ h := h
  edit _ _ _ _ _ := trivial
  write _ _ _ _ _ _ := trivial

variable {key : NamespacedName} {live cluster : Redkey} {w w' : World} {c t : RedkeyConfig}

/-- A finished config stays finished, since Robin leaves terminal phases
alone. -/
theorem AllFinished.robinWrite (h : AllFinished key w) (hw : w.Formed key)
    {status : RedkeyConfigStatus} (ht : t ∈ w.configsOf key)
    (hreport : Finishes (w.configsOf key) t status) :
    AllFinished key (w.robinWrite t.key status) := by
  intro c hc
  obtain ⟨c₀, hc₀, -, -, rfl | ⟨rfl, hnew⟩⟩ := hw.mem_robinWrite ht hc
  · exact h c hc₀
  · rw [hnew, hreport.1 (h c₀ hc₀)]
    exact h c₀ hc₀

theorem AllFinished.eraseConfig (h : AllFinished key w) (k : NamespacedName) :
    AllFinished key (w.eraseConfig k) :=
  fun c hc => h c (mem_configsOf_eraseConfig.mp hc).1

/-- A report on the one config there is. -/
theorem Settled.robinWrite (h : Settled key live w) {status : RedkeyConfigStatus}
    (ht : t ∈ w.configsOf key) (hreport : Finishes (w.configsOf key) t status) :
    Settled key live (w.robinWrite t.key status) where
  stored := h.stored
  config := by
    obtain ⟨c, highest, hone, hsame, happlied⟩ := h.config
    rw [hone] at ht
    obtain rfl := List.mem_singleton.mp ht
    refine ⟨{ t with status := status }, highest, ?_, hsame, ?_⟩
    · rw [configsOf_robinWrite, hone]
      simp [Configs.robinWrite]
    · rw [← happlied]
      exact hreport.1 (by simp [isTerminalConfigPhase, happlied])
  robin := h.robin
  observed := h.observed
  replicas := h.replicas
  phase := h.phase
  recorded := h.recorded

/-- Deleting an old config does not unsettle the cluster. As long as a config
is left, it is the one of the current spec. -/
theorem Settled.eraseConfig (h : Settled key live w) {k : NamespacedName}
    (hsome : ∃ d, d ∈ (w.eraseConfig k).configsOf key) : Settled key live (w.eraseConfig k) where
  stored := h.stored
  config := by
    obtain ⟨c, highest, hone, hsame, happlied⟩ := h.config
    obtain ⟨d, hd⟩ := hsome
    rw [configsOf_eraseConfig, hone] at hd
    obtain rfl := List.mem_singleton.mp (Configs.mem_erase.mp hd).1
    refine ⟨d, highest, ?_, hsame, happlied⟩
    rw [configsOf_eraseConfig, hone]
    exact List.filter_eq_self.mpr fun e he => by
      rw [List.mem_singleton.mp he]
      exact decide_eq_true (Configs.mem_erase.mp hd).2
  robin := h.robin
  observed := h.observed
  replicas := h.replicas
  phase := h.phase
  recorded := h.recorded

theorem Settled.put (h : Settled key live w) {k : Kind} {obj : Obj k}
    (hobj : RefersToRole key k obj) (key' : NamespacedName) :
    Settled key live (w.setObj k key' (some obj)) :=
  { h with
    stored := h.stored
    config := h.config
    robin := fun k' => (h.robin k').put hobj key' }

namespace Convergence

open Tracking

variable {g : Int} {spec : RedkeySpec} {b : Prop} {L : List RedkeyConfig}

/-! ## Assertions -/

/-- Robin has finished every config, and the cluster is settled if it is known
to be (`b`). With `b` false this is the state before the last of the three
steps above, with `b` true the state after it. -/
def Rested (key : NamespacedName) (b : Prop) (live : Redkey) (w : World) : Prop :=
  AllFinished key w ∧ (b → Settled key live w)

/-- The invariant between reconciles: the generation was observed, Robin has
finished every config, and the cluster is settled if it is known to be. -/
def Resting (key : NamespacedName) (g : Int) (spec : RedkeySpec) (b : Prop) (w : World) : Prop :=
  ∃ live, Caught g spec live ∧ Tracks key live w ∧ Rested key b live w

/-- The list ends with the config of the current spec, which is Applied.
Everything before it is superseded. -/
structure Final (cluster : Redkey) (old : List RedkeyConfig) (last : RedkeyConfig)
    (L : List RedkeyConfig) : Prop where
  split : L = old ++ [last]
  current : last.generation? = some cluster.generation
  topology : last.spec.primaries = cluster.spec.primaries ∧
    last.spec.replicasPerPrimary = cluster.spec.replicasPerPrimary
  applied : last.status.configPhase = .applied

/-- The configs that are left are `last`, and some of those that are still to
be deleted. -/
def LeftWith (key : NamespacedName) (last : RedkeyConfig) (rest : List RedkeyConfig) (w : World) :
    Prop :=
  ∀ c ∈ w.configsOf key, c.key = last.key ∨ ∃ d ∈ rest, c.key = d.key

/-! ### What the other parties keep -/

/-- Robin finishes no config twice, and there are no edits. -/
theorem lasts_rested : Lasts key (fun _ _ _ => False) cluster (Rested key b) where
  edit _ _ _ h := h.elim
  robin _ _ _ _ hw h ht hr :=
    ⟨h.1.robinWrite hw.formed ht hr, fun hb => (h.2 hb).robinWrite ht hr⟩

theorem lasts_leftWith {last : RedkeyConfig} {rest : List RedkeyConfig} :
    Lasts key (fun _ _ _ => False) cluster fun _ w => LeftWith key last rest w where
  edit _ _ _ h := h.elim
  robin _ _ _ _ hw h ht _ := by
    intro c hc
    obtain ⟨c₀, hc₀, hmeta, hspec, -⟩ := hw.formed.mem_robinWrite ht hc
    rw [RedkeyConfig.Same.key ⟨hmeta, hspec⟩]
    exact h c₀ hc₀

theorem Rested.put (h : Rested key b live w) {k : Kind} {obj : Obj k}
    (hobj : RefersToRole key k obj) (key' : NamespacedName) :
    Rested key b live (w.setObj k key' (some obj)) :=
  ⟨h.1, fun hb => (h.2 hb).put hobj key'⟩

/-! ### Robin's objects -/

/-- Robin's objects of these kinds are in post. A reconcile puts them there
one after another. -/
def Posted (key : NamespacedName) (kinds : List Kind) (_ : Redkey) (w : World) : Prop :=
  ∀ k ∈ kinds, InPost key k w

/-- And there is a RoleBinding that refers elsewhere. -/
def Astray (key : NamespacedName) (kinds : List Kind) (live : Redkey) (w : World) : Prop :=
  Posted key kinds live w ∧ ∃ rb, w.store.robin .roleBinding (robinKeyOf key) = some rb ∧
    ¬ RefersToRole key .roleBinding rb

theorem lasts_posted {kinds : List Kind} :
    Lasts key (fun _ _ _ => False) cluster (Posted key kinds) where
  edit _ _ _ h := h.elim
  robin _ _ _ _ _ h _ _ := h

/-- Robin does not repair a RoleBinding that is wrong. -/
theorem lasts_astray {kinds : List Kind} :
    Lasts key (fun _ _ _ => False) cluster (Astray key kinds) where
  edit _ _ _ h := h.elim
  robin _ _ _ _ _ h _ _ := h

theorem Astray.not_inPost {kinds : List Kind} (h : Astray key kinds live w) :
    ¬ InPost key .roleBinding w := by
  rintro ⟨obj, hobj, hrefers⟩
  obtain ⟨-, rb, hrb, hastray⟩ := h
  obtain rfl : obj = rb := Option.some.inj (hobj.symm.trans hrb)
  exact hastray hrefers

/-- Removing it does no harm: the cluster is not settled yet, because its
RoleBinding is not in post. -/
theorem Astray.remove {kinds : List Kind} (h : Astray key kinds live w)
    (hrest : Rested key b live w) (key' : NamespacedName) :
    Rested key b live (w.setObj .roleBinding key' none) ∧
      Posted key kinds live (w.setObj .roleBinding key' none) := by
  refine ⟨⟨hrest.1, fun hb => absurd ((hrest.2 hb).robin .roleBinding) h.not_inPost⟩, ?_⟩
  intro k hk
  -- the other kinds stay in post
  have hne : k ≠ .roleBinding := by
    rintro rfl
    exact h.not_inPost (h.1 _ hk)
  exact (h.1 k hk).remove hne key'

/-! ### What the reconcile does -/

/-- The generation is observed, so its config is on top. -/
theorem heads_of_caught (hpos : spec.primaries ≠ 0) (hlive : Caught g spec live)
    (hw : Tracks key live w) : ∃ c, Heads key live w c := by
  refine hw.headed (hlive.1.2 ▸ hpos) (Or.inl ?_)
  rw [hlive.2, hlive.1.1]

/-- The list of a cluster whose configs are finished: its last config is
Applied, since Robin has not skipped it. -/
theorem final_of_list (hpos : spec.primaries ≠ 0) (hlive : Caught g spec live)
    (hcluster : Caught g spec cluster) (hw : Tracks key live w) (hdone : AllFinished key w)
    {items : List RedkeyConfig} (hperm : items.Perm (w.configsOf key)) :
    ∃ old last, Final cluster old last (sortBySequence items) ∧ LeftWith key last old w := by
  obtain ⟨c, hc⟩ := heads_of_caught hpos hlive hw
  have hmem : ∀ d, d ∈ sortBySequence items ↔ d ∈ w.configsOf key :=
    fun d => mem_sortBySequence.trans hperm.mem_iff
  have hne : sortBySequence items ≠ [] := List.ne_nil_of_mem ((hmem c).mpr hc.mem)
  obtain ⟨old, last, hsplit⟩ := (List.eq_nil_or_concat (sortBySequence items)).resolve_left hne
  rw [List.concat_eq_append] at hsplit
  have hlast : (sortBySequence items).getLast? = some last := by
    rw [hsplit, List.getLast?_append]
    rfl
  -- the last config of the list is the one on top
  obtain rfl : last = c := by
    have hlastmem := (hmem last).mp (List.mem_of_getLast? hlast)
    refine hw.formed.eq_of_sequence hlastmem hc.mem (le_antisymm (hc.highest last hlastmem) ?_)
    exact sequence_le_getLast (sorted_sortBySequence items) hlast ((hmem c).mpr hc.mem)
  obtain ⟨highest, hsame⟩ := hw.snapshot last hc.mem hc.current
  have hspec : live.spec = cluster.spec := hlive.1.2.trans hcluster.1.2.symm
  refine ⟨old, last, ⟨hsplit, ?_, ?_, ?_⟩, ?_⟩
  · rw [(hw.ofCluster last hc.mem).dated, hc.current, hlive.1.1, hcluster.1.1]
  · rw [hsame.2]
    exact ⟨congrArg RedkeySpec.primaries hspec, congrArg RedkeySpec.replicasPerPrimary hspec⟩
  · -- terminal and not Superseded
    have hterminal := hdone last hc.mem
    simpa [isTerminalConfigPhase, hc.phase] using hterminal
  · intro d hd
    have hd' := (hmem d).mpr hd
    rw [hsplit, List.mem_append, List.mem_singleton] at hd'
    rcases hd' with hold | rfl
    · exact Or.inr ⟨d, hold, rfl⟩
    · exact Or.inl rfl

/-- Cleanup deletes everything but the last config. -/
theorem cleanup_of_final {old : List RedkeyConfig} {last : RedkeyConfig}
    (h : Final cluster old last L) : cleanupSupersededConfigs L = deleteSuperseded old [last] := by
  obtain rfl := h.split
  have hlast : lastApplied (old ++ [last]) = some old.length :=
    lastApplied_append h.applied fun c hc => by cases hc
  unfold cleanupSupersededConfigs
  split
  -- a list of one config is left alone, which comes to the same
  case isTrue hlen =>
    obtain rfl : old = [] := List.eq_nil_of_length_eq_zero (by simpa using hlen)
    rfl
  case isFalse => simp only [hlast, List.take_left, List.drop_left]

/-- The one config that is left. -/
theorem configsOf_eq_singleton (hw : w.Formed key) (hc : c ∈ w.configsOf key)
    (hall : ∀ d ∈ w.configsOf key, d.key = c.key) : w.configsOf key = [c] := by
  have hnodup : (w.configsOf key).Nodup := List.Nodup.filter _ (List.Nodup.of_map _ hw.nodup)
  have heq : ∀ d ∈ w.configsOf key, d = c := fun d hd => hw.eq_of_key hd hc (hall d hd)
  have hmem : ∀ d, d ∈ w.configsOf key ↔ d ∈ [c] := by
    intro d
    rw [List.mem_singleton]
    exact ⟨heq d, fun h => h ▸ hc⟩
  have hperm := (List.perm_ext_iff_of_nodup hnodup (List.nodup_singleton c)).mpr hmem
  exact List.perm_singleton.mp hperm

/-- The status of the one config that is left. Each field of `Settled` is one
that `aggregatedStatus` fills from this config. -/
theorem settled_of_write (hpos : spec.primaries ≠ 0) (hlive : Caught g spec live)
    (hcluster : Caught g spec cluster) (hw : Tracks key live w) (hdone : AllFinished key w)
    (hposted : ∀ k, InPost key k w) {old : List RedkeyConfig} {last : RedkeyConfig}
    (hfinal : Final cluster old last L) (hleft : LeftWith key last [] w) {latest : Redkey}
    (hlatest : Pinned g spec latest) (now : Time) :
    Settled key (live.written (aggregatedStatus now cluster.generation latest last))
      (w.setRedkey key (live.written (aggregatedStatus now cluster.generation latest last))) where
  stored := Store.setRedkey_redkeys_self _ _ _
  config := by
    obtain ⟨c, hc⟩ := heads_of_caught hpos hlive hw
    obtain ⟨highest, hsame⟩ := hw.snapshot c hc.mem hc.current
    have hkey : ∀ d ∈ w.configsOf key, d.key = last.key := by
      intro d hd
      rcases hleft d hd with heq | ⟨e, he, -⟩
      · exact heq
      · cases he
    -- all the names are the same, and names are unique
    have hone : w.configsOf key = [c] := configsOf_eq_singleton hw.formed hc.mem fun d hd =>
      (hkey d hd).trans (hkey c hc.mem).symm
    refine ⟨c, highest, hone, hsame, ?_⟩
    have hterminal := hdone c hc.mem
    simpa [isTerminalConfigPhase, hc.phase] using hterminal
  robin := hposted
  observed := hcluster.1.1.trans hlive.1.1.symm
  replicas := congrArg RedkeySpec.primaries (hlatest.2.trans hlive.1.2.symm)
  phase := by
    change computePhaseFromConditions (aggregateConditions now latest.status.conditions last) =
      if last.status.status = .error then .error else .ready
    rw [computePhase_aggregateConditions]
    by_cases herror : last.status.status = .error
    · simp [hasConfigError, isTerminalConfigPhase, hfinal.applied, herror]
    · simp [hasConfigError, isConfigReady, isTerminalConfigPhase, hfinal.applied, herror]
  recorded := by
    intro hephemeral hprimaries
    change live.spec.ephemeral = false at hephemeral
    change 0 < live.spec.primaries at hprimaries
    have hspec : cluster.spec = live.spec := hcluster.1.2.trans hlive.1.2.symm
    -- the topology is recorded, as the config is Applied and has primaries
    have hrecords : recordsTopology latest last = true := by
      simp [recordsTopology, hlatest.2, ← hlive.1.2, hephemeral, hfinal.applied, hfinal.topology.1,
        hspec, hprimaries]
    simp only [Redkey.written, aggregatedStatus, hrecords, if_true, hfinal.topology, hspec,
      and_self]

/-! ### A reconcile -/

variable {fill : Deployment → Deployment} {now : Time} {r : RedkeyReconciler}
variable {F : Redkey → World → Prop}

/-- The reconcile of `cluster` is running on finished configs, and has got as
far as `F` says. -/
def Works (key : NamespacedName) (g : Int) (spec : RedkeySpec) (b : Prop) (cluster : Redkey)
    (F : Redkey → World → Prop) : World → Prop :=
  Run key (Caught g spec) cluster fun live w => Rested key b live w ∧ F live w

/-- Every call keeps the invariant. -/
def KeepsResting (key : NamespacedName) (g : Int) (spec : RedkeySpec) (b : Prop) (c : Call)
    (w : World) (_ : Resp c) (w' : World) : Prop :=
  Resting key g spec b w → Resting key g spec b w'

/-- A triple of the system without edits. -/
abbrev RestTriple {α : Type} (fill : Deployment → Deployment) (key : NamespacedName) (g : Int)
    (spec : RedkeySpec) (b : Prop) (A : World → Prop) (p : Rec α) (Q : α → World → Prop) : Prop :=
  Triple (calmRuns fill key) (KeepsResting key g spec b)
    (Resting key g spec b) A p Q

/-- Wherever the reconcile ends, the invariant holds. -/
theorem Works.resting (h : Works key g spec b cluster F w) : Resting key g spec b w := by
  obtain ⟨-, live, hlive, hw, hrest, -⟩ := h
  exact ⟨live, hlive, hw.toTracks, hrest⟩

/-- Robin's reports are the only steps of the other parties. -/
theorem stable_works (hF : Lasts key (fun _ _ _ => False) cluster F) :
    Stable (calmRuns fill key) (Works key g spec b cluster F) :=
  stable_run (keeps_caught g spec) (lasts_rested.and hF)

theorem stable_resting :
    Stable (calmRuns fill key) (Resting key g spec b) := by
  rintro w w' ⟨-, henv⟩ ⟨live, hlive, hw, hrest⟩
  cases henv with
  | userUpdate _ hedit => exact hedit.elim
  | @robinWrite t status ht hr =>
      have hw' := hw.robinWrite ht hr
      have hrest' : Rested key b live (w.robinWrite t.key status) :=
        ⟨hrest.1.robinWrite hw.formed ht hr, fun hb => (hrest.2 hb).robinWrite ht hr⟩
      exact ⟨live, hlive, hw', hrest'⟩

theorem quiet_resting :
    Quiet (calmRuns fill key) (KeepsResting key g spec b) :=
  fresh_quiet fun _ _ _ h => h

/-- Putting Robin in place keeps the invariant. A RoleBinding is replaced only
if it was not in post. -/
theorem staffing : Staffing fill (World.Env key (fun _ _ _ => False) Finishes) (fun _ _ _ => True)
    (KeepsResting key g spec b) key (Resting key g spec b)
    (fun kinds => Works key g spec b cluster (Posted key kinds))
    (fun kinds => Works key g spec b cluster (Astray key kinds)) where
  quiet := quiet_resting
  stable _ := stable_works lasts_posted
  stable_astray _ := stable_works lasts_astray
  inv _ _ hw := hw.resting
  inv_astray _ _ hw := hw.resting
  guarantee _ _ _ _ hw' _ := hw'
  put kinds w k key' obj hobj hw := by
    obtain ⟨hcluster, live, hlive, htracks, hrest, hposted⟩ := hw
    have hstored := refersToRole_withDefaults fill hobj
    have hrest' := hrest.put hstored key'
    have hposted' : Posted key kinds live (w.setObj k key' (some (withDefaults fill k obj))) :=
      fun k' hk' => (hposted k' hk').put hstored key'
    exact ⟨hcluster, live, hlive, htracks.setRobin _, hrest', hposted'⟩
  found kinds w k hpost hw := by
    refine hw.imp fun live _ h => ⟨h.1, fun k' hk' => ?_⟩
    rcases List.mem_cons.mp hk' with rfl | hk'
    · exact hpost
    · exact h.2 k' hk'
  astray kinds w rb hrb hrefers hw := hw.imp fun live _ h => ⟨h.1, h.2, rb, hrb, hrefers⟩
  replace kinds w key' hw := by
    obtain ⟨hcluster, live, hlive, htracks, hrest, hastray⟩ := hw
    exact ⟨hcluster, live, hlive, htracks.setRobin _, hastray.remove hrest key'⟩

/-- After the list: its last config is the one to keep. -/
def Lists (key : NamespacedName) (cluster : Redkey) (L : List RedkeyConfig) (live : Redkey)
    (w : World) : Prop :=
  Posted key allKinds live w ∧ Topped key L w ∧
    ∃ old last, Final cluster old last L ∧ LeftWith key last old w

/-- The list shows finished configs, the current one last. -/
theorem list_triple (hpos : spec.primaries ≠ 0) :
    RestTriple fill cluster.key g spec b
      (Works cluster.key g spec b cluster (Posted cluster.key allKinds)) (listConfigs cluster)
      fun L => Works cluster.key g spec b cluster (Lists cluster.key cluster L) := by
  refine fresh_list_triple (stable_works lasts_posted) (fun w hw => hw.resting)
    (fun _ _ _ h => h) ?_
  rintro w items ⟨hcluster, live, hlive, hw, hrest, hposted⟩ hperm -
  obtain ⟨old, last, hfinal, hleft⟩ :=
    final_of_list hpos hlive hcluster hw.toTracks hrest.1 hperm
  have hne : sortBySequence items ≠ [] := by
    rw [hfinal.split]
    simp
  -- the last config of the list is on top
  have htopped := (Shows.of_list hw.formed hperm).topped hw.ofCluster hne
  exact ⟨hcluster, live, hlive, hw, hrest, hposted, htopped, old, last, hfinal, hleft⟩

/-- During the cleanup: the configs of `rest` are still to be deleted, and the
last one of the list is still on top. -/
def Pruning (key : NamespacedName) (L : List RedkeyConfig) (last : RedkeyConfig)
    (rest : List RedkeyConfig) (live : Redkey) (w : World) : Prop :=
  Posted key allKinds live w ∧ Topped key L w ∧ LeftWith key last rest w

theorem lasts_pruning {last : RedkeyConfig} {rest : List RedkeyConfig} :
    Lasts key (fun _ _ _ => False) cluster (Pruning key L last rest) :=
  lasts_posted.and (lasts_topped.and lasts_leftWith)

/-- One deletion of the cleanup. -/
theorem delete_step (hpos : spec.primaries ≠ 0) {old rest : List RedkeyConfig} {last : RedkeyConfig}
    (hfinal : Final cluster old last L) (hc : c ∈ old)
    (h : Works key g spec b cluster (Pruning key L last (c :: rest)) w) :
    Works key g spec b cluster (Pruning key L last rest) (w.eraseConfig c.key) := by
  obtain ⟨hcluster, live, hlive, hw, hrest, hposted, htopped, hleft⟩ := h
  obtain ⟨hw', -, htopped'⟩ := hw.eraseOld (fun _ => heads_of_caught hpos hlive hw.toTracks) htopped
    hfinal.split hc
  -- a config is left, so the cluster is as settled as before
  obtain ⟨top, htop, -⟩ := htopped'.top
  have hrest' : Rested key b live (w.eraseConfig c.key) :=
    ⟨hrest.1.eraseConfig _, fun hb => (hrest.2 hb).eraseConfig ⟨top, htop⟩⟩
  refine ⟨hcluster, live, hlive, hw', hrest', hposted, htopped', ?_⟩
  intro d hd
  obtain ⟨hmem, hne⟩ := mem_configsOf_eraseConfig.mp hd
  rcases hleft d hmem with heq | ⟨e, he, heq⟩
  · exact Or.inl heq
  · -- the deleted config is not left
    rcases List.mem_cons.mp he with rfl | he
    · exact absurd heq hne
    · exact Or.inr ⟨e, he, heq⟩

/-- After the cleanup: only the last config is left, and it is Applied. -/
def OneLeft (key : NamespacedName) (cluster : Redkey) (kept : List RedkeyConfig) (live : Redkey)
    (w : World) : Prop :=
  Posted key allKinds live w ∧ ∃ old last, Final cluster old last (old ++ kept) ∧
    kept = [last] ∧ LeftWith key last [] w

/-- The cleanup deletes the configs before the last one. Wherever it is cut
short, the next reconcile goes on with the rest. -/
theorem cleanup_triple (hpos : spec.primaries ≠ 0) :
    RestTriple fill key g spec b (Works key g spec b cluster (Lists key cluster L))
      (cleanupSupersededConfigs L) fun res w =>
        (res.2 = none → Works key g spec b cluster (OneLeft key cluster res.1) w) ∧
        (res.2 ≠ none → Resting key g spec b w) := by
  rintro w₀ ⟨hcluster, live₀, hlive₀, hw₀, hrest₀, hposted₀, htopped₀, old, last, hfinal, hleft₀⟩
  rw [cleanup_of_final hfinal]
  refine Triple.post (deleteSuperseded_rest_triple (J := Resting key g spec b)
    (A := fun rest => Works key g spec b cluster (Pruning key L last rest))
    quiet_resting (fun rest => stable_works lasts_pruning) old [last] ?_) ?_ w₀
    ⟨hcluster, live₀, hlive₀, hw₀, hrest₀, hposted₀, htopped₀, hleft₀⟩
  · intro c rest hsuffix w r w' hw hexec
    have hc : c ∈ old := hsuffix.subset List.mem_cons_self
    have hstep := delete_step hpos hfinal hc hw
    -- answered, lost on the way there, or lost on the way back
    rcases hexec with ⟨-, hexec⟩ | ⟨rfl, rfl | ⟨r₀, -, hexec⟩⟩
    · obtain ⟨rfl | rfl, rfl⟩ := exec_deleteConfig hexec
      · exact ⟨fun _ => hstep.resting, hstep⟩
      · exact ⟨fun _ => hstep.resting, hstep⟩
    · exact ⟨fun h => h, hw.resting⟩
    · obtain ⟨-, rfl⟩ := exec_deleteConfig hexec
      exact ⟨fun _ => hstep.resting, hstep.resting⟩
  · rintro ⟨kept, err⟩ w ⟨hok, hfail⟩
    refine ⟨fun herr => ?_, hfail⟩
    obtain ⟨rfl, hw⟩ := hok herr
    exact hw.imp fun live hw h => ⟨h.1, h.2.1, old, last, hfinal.split ▸ hfinal, rfl, h.2.2.2⟩

theorem lasts_oneLeft {kept : List RedkeyConfig} : Lasts key (fun _ _ _ => False) cluster
    (OneLeft key cluster kept) where
  edit _ _ _ h := h.elim
  robin live w t status hw h ht hr := by
    obtain ⟨hposted, old, last, hfinal, hkept, hleft⟩ := h
    exact ⟨hposted, old, last, hfinal, hkept, lasts_leftWith.robin live w t status hw hleft ht hr⟩

/-- An accepted status write settles the cluster. -/
theorem write_step (hpos : spec.primaries ≠ 0) {kept : List RedkeyConfig} {active : RedkeyConfig}
    (hactive : selectActiveConfig kept = some active) {latest stored : Redkey}
    (hlatest : Pinned g spec latest) (hlive : w.store.redkeys key = some live)
    (hstored : live.writeStatus { latest with
      status := aggregatedStatus now cluster.generation latest active } = .ok stored)
    (h : Works key g spec b cluster (OneLeft key cluster kept) w) :
    Works key g spec True cluster (OneLeft key cluster kept) (w.setRedkey key stored) := by
  obtain ⟨hcluster, live', hlive', hw, hrest, hposted, old, last, hfinal, rfl, hleft⟩ := h
  obtain rfl : live = live' := Option.some.inj (hlive.symm.trans hw.stored)
  -- there is no other config to be the active one
  obtain rfl : last = active := Option.some.inj hactive
  obtain ⟨-, rfl⟩ := Redkey.writeStatus_ok hstored
  have hobs : (aggregatedStatus now cluster.generation latest last).observedGeneration =
      cluster.generation := rfl
  have hsettled := settled_of_write hpos hlive' hcluster hw.toTracks hrest.1
    (fun k => hposted k (mem_allKinds k)) hfinal hleft hlatest now
  have hmade : MadeFor key cluster live w := fun _ => heads_of_caught hpos hlive' hw.toTracks
  have hcaught := (keeps_caught g spec).write live cluster _ hlive' hcluster hobs
  have hw' := hw.write hobs fun _ => hmade
  exact ⟨hcluster, _, hcaught, hw', ⟨hrest.1, fun _ => hsettled⟩, hposted, old, last, hfinal, rfl,
    hleft⟩

/-- The status write settles the cluster if it is accepted, also when the
answer to it is lost. -/
theorem aggregate_triple (hpos : spec.primaries ≠ 0) {kept : List RedkeyConfig} :
    RestTriple fill cluster.key g spec b
      (Works cluster.key g spec b cluster (OneLeft cluster.key cluster kept))
      (aggregateStatus now cluster kept) fun _ w => Resting cluster.key g spec True w := by
  have hweaken : ∀ w, Works cluster.key g spec True cluster (OneLeft cluster.key cluster kept) w →
      Works cluster.key g spec b cluster (OneLeft cluster.key cluster kept) w :=
    fun w hw => hw.imp fun _ _ h => ⟨⟨h.1.1, fun _ => h.1.2 trivial⟩, h.2⟩
  refine aggregateStatus_writes_triple (B := fun latest w => (latest.key = cluster.key ∧
    Pinned g spec latest) ∧
      Works cluster.key g spec b cluster (OneLeft cluster.key cluster kept) w)
    (fun w hw => hw.resting) (stable_works lasts_oneLeft)
    (fun latest w w' hstep hw => ⟨hw.1, stable_works lasts_oneLeft w w' hstep hw.2⟩) ?_ ?_ ?_
  · -- one config is left, so there is an active one
    rintro hnone w ⟨-, live, -, -, -, -, old, last, -, rfl, -⟩
    cases hnone
  · rintro w r w' hw (⟨-, hexec⟩ | ⟨rfl, rfl | ⟨r₀, -, hexec⟩⟩)
    · obtain ⟨rfl, rfl⟩ := exec_getRedkey hexec
      refine ⟨fun h => h, ?_⟩
      cases hfind : find w'.store.redkeys cluster.key with
      | ok latest =>
          obtain ⟨-, live, hlive, htracks, -⟩ := id hw
          -- what is read again is the live Redkey
          obtain rfl : live = latest :=
            Option.some.inj (htracks.stored.symm.trans (find_eq_ok.mp hfind))
          exact ⟨⟨htracks.formed.keyed live htracks.stored, hlive.1⟩, hw⟩
      | error e => exact hw
    · exact ⟨fun h => h, hw⟩
    · obtain ⟨-, rfl⟩ := exec_getRedkey hexec
      exact ⟨fun h => h, hw⟩
  · rintro active hactive latest w r w' ⟨⟨hkey, hlatest⟩, hw⟩ hexec
    -- the write is accepted if nothing was written since the read
    have hstep : ∀ live stored, w.store.redkeys latest.key = some live →
        live.writeStatus { latest with
          status := aggregatedStatus now cluster.generation latest active } = .ok stored →
        Works cluster.key g spec True cluster (OneLeft cluster.key cluster kept)
          (w.setRedkey latest.key stored) := by
      intro live stored hlive hstored
      rw [hkey] at hlive ⊢
      exact write_step hpos hactive hlatest hlive hstored hw
    rcases hexec with ⟨-, hexec⟩ | ⟨rfl, rfl | ⟨r₀, -, hexec⟩⟩
    · rcases exec_updateRedkeyStatus hexec with ⟨live, stored, hlive, hstored, rfl, rfl⟩ |
        ⟨⟨e, rfl⟩, rfl, -⟩
      · have hw' := hstep live stored hlive hstored
        exact ⟨fun _ => (hweaken _ hw').resting, hw'.resting⟩
      · exact ⟨fun h => h, hw⟩
    · exact ⟨fun h => h, hw⟩
    · rcases exec_updateRedkeyStatus hexec with ⟨live, stored, hlive, hstored, rfl, rfl⟩ |
        ⟨⟨e, rfl⟩, rfl, -⟩
      · have hw' := hweaken _ (hstep live stored hlive hstored)
        exact ⟨fun _ => hw'.resting, hw'⟩
      · exact ⟨fun h => h, hw⟩

/-- The path of a cluster with primaries, none of whose stages creates a
config. -/
theorem configs_triple (hpos : spec.primaries ≠ 0) :
    RestTriple fill cluster.key g spec b
      (Works cluster.key g spec b cluster (Posted cluster.key []))
      (reconcileConfigs r now cluster) fun _ w => Resting cluster.key g spec True w := by
  refine reconcileConfigs_triple
    (fun L => Works cluster.key g spec b cluster (Lists cluster.key cluster L)) (fun _ => False)
    (fun L => Works cluster.key g spec b cluster (Lists cluster.key cluster L))
    (fun L => Works cluster.key g spec b cluster (OneLeft cluster.key cluster L)) quiet_resting
    stable_resting stable_resting
    staffing.ensureRBAC_triple staffing.ensureRobinDeployment_triple (list_triple hpos) ?_
    (fun _ h => h.elim) (fun _ _ _ _ h => h) ?_ (fun L _ => cleanup_triple hpos)
    (fun L => aggregate_triple hpos)
  · -- the last config is current, so none is created
    rintro L hneeds w ⟨-, live, -, -, -, -, -, old, last, hfinal, -⟩
    obtain rfl := hfinal.split
    rcases hneeds with hnil | hneeds
    · simp at hnil
    · rw [List.getLast?_append, List.getLast?_singleton, Option.some_or] at hneeds
      exact absurd (generation_lt_of_needsNewConfig hneeds hfinal.current) (lt_irrefl _)
  · -- the list is not empty
    rintro w ⟨-, live, -, -, -, -, -, old, last, hfinal, -⟩
    have hsplit := hfinal.split
    simp at hsplit

/-- A reconcile of finished configs settles the cluster when it succeeds. -/
theorem reconcile_triple (hpos : spec.primaries ≠ 0) :
    RestTriple fill key g spec b (Resting key g spec b) (reconcile r now key)
      fun _ w => Resting key g spec True w := by
  refine RedkeyOperator.reconcile_triple (fun cluster w => cluster.key = key ∧
    cluster.spec.primaries ≠ 0 ∧ Works key g spec b cluster (Posted key []) w) quiet_resting
    stable_resting stable_resting stable_resting
    (fresh_get_call (G := KeepsResting key g spec b) (fun _ hw => hw) (fun _ _ _ h => h) ?_ ?_)
    ?_ ?_
  · rintro w cluster ⟨live, hlive, hw, hrest⟩ hstored
    obtain rfl : cluster = live := Option.some.inj (hstored.symm.trans hw.stored)
    have hkey : cluster.key = key := hw.formed.keyed cluster hstored
    have hne : cluster.spec.primaries ≠ 0 := hlive.1.2 ▸ hpos
    have hposted : Posted key [] cluster w := fun _ hk => by cases hk
    exact ⟨hkey, hne, hlive, cluster, hlive, TracksFrom.start hw, hrest, hposted⟩
  · rintro w ⟨live, -, hw, -⟩ hnone
    cases hnone.symm.trans hw.stored
  · rintro cluster hzero w ⟨-, hne, -⟩
    exact absurd hzero hne
  · rintro cluster _ w ⟨rfl, -, hw⟩
    exact configs_triple hpos w hw

/-! ### Whole runs -/

variable {init : World → Prop}

/-- Every reconcile keeps the invariant, and settles the cluster if it
succeeds. -/
theorem rounds (hpos : spec.primaries ≠ 0) : Rounds (calmRuns fill key)
    (KeepsResting key g spec b) (Reconciles key) (Resting key g spec b)
    (Resting key g spec True) where
  stable := stable_resting
  stable_ok := stable_resting
  weaken := by
    rintro w ⟨live, hlive, hw, hrest⟩
    exact ⟨live, hlive, hw, hrest.1, fun _ => hrest.2 trivial⟩
  entry := by
    rintro p ⟨r, now, rfl⟩
    exact reconcile_triple hpos

/-- A reconcile that has succeeded has settled the cluster. -/
theorem reachable_settles (hpos : spec.primaries ≠ 0) (hinit : ∀ w, init w → Resting key g spec b w)
    {res : Result}
    (hm : Reachable (calmRuns fill key) (Reconciles key) init ⟨w, some (.ret (.ok res))⟩) :
    Resting key g spec True w :=
  (rounds hpos).ok hinit hm

/-- The invariant holds in every state. -/
theorem reachable_resting (hpos : spec.primaries ≠ 0) (hinit : ∀ w, init w → Resting key g spec b w)
    {m : Machine Call Resp (Except Err Result) World}
    (hm : Reachable (calmRuns fill key) (Reconciles key) init m) :
    Resting key g spec b m.shared :=
  (rounds hpos).always hinit hinit stable_resting (fun _ _ _ _ hG hw => hG hw) hm

end Convergence

/-! ## Every run -/

open Convergence Tracking

/-- Take any state `w₀` the system can get into, and suppose nobody edits the
spec any more. After a reconcile that succeeds (`w₁`), Robin finishing the
configs (`w₂`) and another reconcile that succeeds (`w₃`), with any number of
failed ones in between, the cluster is settled, and stays so. -/
theorem converges (fill : Deployment → Deployment) (key : NamespacedName) {w₀ w₁ w₂ w₃ : World}
    {res res' : Result} {live : Redkey} {m : Machine Call Resp (Except Err Result) World}
    (h₀ : Reachable (trackedRuns fill key Edits) (Reconciles key)
      (fun w => ∃ cluster, Untouched key cluster w) ⟨w₀, none⟩)
    (hlive : w₀.store.redkeys key = some live) (hpos : live.spec.primaries ≠ 0)
    (h₁ : Reachable (calmRuns fill key) (Reconciles key) (· = w₀) ⟨w₁, some (.ret (.ok res))⟩)
    (h₂ : Reachable (calmRuns fill key) (Reconciles key) (· = w₁) ⟨w₂, none⟩)
    (hdone : AllFinished key w₂)
    (h₃ : Reachable (calmRuns fill key) (Reconciles key) (· = w₂) ⟨w₃, some (.ret (.ok res'))⟩)
    (h₄ : Reachable (calmRuns fill key) (Reconciles key) (· = w₃) m) :
    ∃ live', live'.generation = live.generation ∧ live'.spec = live.spec ∧
      Settled key live' m.shared := by
  obtain ⟨live₀, -, hw₀⟩ := reachable_idle keeps_edits
    (fun w ⟨cluster, hw⟩ => ⟨cluster, trivial, hw.tracks⟩) h₀
  obtain rfl : live = live₀ := Option.some.inj (hlive.symm.trans hw₀.stored)
  -- the first success observes the generation
  have hcaught : Idle key (Caught live.generation live.spec) w₁ := by
    obtain ⟨cluster, live₁, hcluster, hlive₁, hw₁, hobs⟩ :=
      reachable_observed (keeps_pinned live.generation live.spec)
        (fun w hw => ⟨live, ⟨rfl, rfl⟩, hw ▸ hw₀⟩) h₁
    exact ⟨live₁, ⟨hlive₁, (hobs (hcluster.2 ▸ hpos)).trans hcluster.1⟩, hw₁⟩
  -- Robin finishes the configs
  have hresting : Resting key live.generation live.spec False w₂ := by
    obtain ⟨live₂, hlive₂, hw₂⟩ := reachable_idle (keeps_caught live.generation live.spec)
      (fun w hw => hw ▸ hcaught) h₂
    exact ⟨live₂, hlive₂, hw₂, hdone, False.elim⟩
  have hsettled := reachable_settles hpos (fun w hw => hw ▸ hresting) h₃
  obtain ⟨live', hlive', -, hrest⟩ := reachable_resting hpos (fun w hw => hw ▸ hsettled) h₄
  exact ⟨live', hlive'.1.1, hlive'.1.2, hrest.2 trivial⟩

/-- A reconcile can always succeed: it does when nobody is in its way. -/
theorem reachable_success (fill : Deployment → Deployment) {key : NamespacedName} {w : World}
    (hfill : ∀ d, (fill d).metadata = d.metadata) (hw : w.Stored key) :
    ∃ res, Reachable (calmRuns fill key) (Reconciles key) (· = w)
      ⟨w.settled fill key, some (.ret (.ok res))⟩ := by
  obtain ⟨x, hrun⟩ := reconcileRuns_settled fill key w
  obtain ⟨res, rfl⟩ := (reconcile_effect hfill hw hrun).1
  obtain ⟨settings, now, hrun⟩ := hrun
  refine ⟨res, Runs.reachable (hrun.mono fun c w r w' hexec => Or.inl ⟨trivial, hexec⟩) ?_⟩
  have hidle : Reachable (calmRuns fill key) (Reconciles key) (· = w) ⟨w, none⟩ :=
    Reachable.idle rfl
  exact hidle.start ⟨settings, now, rfl⟩

theorem World.Stored.robinWrite {key : NamespacedName} {w : World} (h : w.Stored key)
    (k : NamespacedName) (status : RedkeyConfigStatus) : (w.robinWrite k status).Stored key where
  redkey := h.redkey
  configs := (Configs.map_key_robinWrite w.store.configs k status).symm ▸ h.configs
  robin := h.robin
  distinct := by
    intro c hc d hd hseq
    rw [configsOf_robinWrite] at hc hd
    obtain ⟨c₀, hc₀, rfl⟩ := List.mem_map.mp hc
    obtain ⟨d₀, hd₀, rfl⟩ := List.mem_map.mp hd
    -- a report leaves every spec as it is
    have hspec : ∀ e : RedkeyConfig,
        (if e.key = k then { e with status := status } else e).spec = e.spec := by
      intro e
      split <;> rfl
    rw [hspec, hspec] at hseq
    rw [h.distinct c₀ hc₀ d₀ hd₀ hseq]

theorem initial_untouched :
    Untouched sampleCluster.key sampleCluster (World.initial sampleCluster) where
  stored := by simp [World.initial]
  formed := World.initial_formed sampleCluster
  configs := rfl
  free c hc := by cases hc
  ranged := by decide
  observed := by decide

/-- Robin has applied the config of the first reconcile. -/
def sampleFinished : World :=
  ((World.initial sampleCluster).settled id sampleCluster.key).reported sampleCluster.key 1
    { configPhase := .applied, status := .ready }

theorem sampleFinished_stored : sampleFinished.Stored sampleCluster.key := by
  obtain ⟨x, hrun⟩ := reconcileRuns_settled id sampleCluster.key (World.initial sampleCluster)
  obtain ⟨-, now, heq⟩ := reconcile_effect (fun _ => rfl) (initial_stored sampleCluster) hrun
  have hstored : ((World.initial sampleCluster).settled id sampleCluster.key).Stored
      sampleCluster.key := by
    rw [heq]
    exact stored_effect ⟨fun _ => rfl, fun _ => rfl⟩ (initial_stored sampleCluster)
  unfold sampleFinished World.reported
  split
  · exact hstored.robinWrite _ _
  · exact hstored

/-- Two reconciles with Robin in between settle a new cluster. -/
theorem converges_sample :
    ∃ live, live.generation = sampleCluster.generation ∧ live.spec = sampleCluster.spec ∧
      Settled sampleCluster.key live (sampleFinished.settled id sampleCluster.key) := by
  obtain ⟨res, h₁⟩ := reachable_success id (fun _ => rfl) (initial_stored sampleCluster)
  obtain ⟨res', h₃⟩ := reachable_success id (fun _ => rfl) sampleFinished_stored
  have hidle : Reachable (calmRuns id sampleCluster.key) (Reconciles sampleCluster.key)
      (· = (World.initial sampleCluster).settled id sampleCluster.key)
      ⟨(World.initial sampleCluster).settled id sampleCluster.key, none⟩ := Reachable.idle rfl
  have h₂ : Reachable (calmRuns id sampleCluster.key) (Reconciles sampleCluster.key) _
      ⟨sampleFinished, none⟩ := hidle.env ⟨trivial, World.env_reported (by decide +kernel)⟩
  have hdone : ∀ c ∈ sampleFinished.configsOf sampleCluster.key,
      isTerminalConfigPhase c.status.configPhase = true := by decide +kernel
  exact converges id sampleCluster.key (Reachable.idle ⟨sampleCluster, initial_untouched⟩)
    initial_untouched.stored (by decide) h₁ h₂ hdone h₃ (Reachable.idle rfl)

end RedkeyOperator
