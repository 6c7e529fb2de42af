import RedkeyOperator.System.Undisturbed

/-!
# Reconciles reach a fixed point

With the user and Robin idle, a second reconcile finds its own work and changes nothing but the
time of the last status update. The one exception is the reconcile that asks Robin to scale down:
it creates a config, and the next one mirrors it (`reconcile_fixed_point`).

* Robin's objects: what a reconcile stores is not drift to the next one (`ensured_ensured`). A
  Deployment may even be patched every time, when the user sets the annotation that the Deployment
  controller manages; the patch then stores what was stored.
* Configs: cleanup leaves nothing to clean up, and the generation that was observed needs no new
  config.
* Status: the conditions that are set are already there.
-/

namespace RedkeyOperator

open Interleaved

/-! ## Defaults -/

/-- The API server fills the defaults of unset fields in deterministically: it
leaves the metadata alone, and an object some of whose defaults are filled in
already is stored with the same ones. -/
structure FillsDefaults (fill : Deployment → Deployment) : Prop where
  metadata : ∀ d, (fill d).metadata = d.metadata
  again : ∀ d, fill { d with selector := (fill d).selector, defaulted := (fill d).defaulted } = fill d

/-! ## Robin's objects -/

section Robin

variable {fill : Deployment → Deployment} {cluster : Redkey} {w : World}

theorem relabel_relabel (existing desired : ObjectMeta) :
    (existing.relabel desired).relabel desired = existing.relabel desired := rfl

/-- The Deployment controller's annotation is kept, also from the object
itself. -/
theorem preserve_self (annotations : StringMap) :
    preserveManagedAnnotations annotations annotations = annotations := by
  unfold preserveManagedAnnotations
  cases h : annotations.lookup deploymentRevisionAnnotation with
  | none => rfl
  | some rev =>
      refine Finmap.ext_lookup fun k => ?_
      by_cases hk : k = deploymentRevisionAnnotation
      · subst hk
        rw [Finmap.lookup_insert, h]
      · rw [Finmap.lookup_insert_of_ne _ hk]

/-- Taking the managed annotation over twice is taking it over once. -/
theorem preserve_preserve (existing desired : StringMap) :
    preserveManagedAnnotations (preserveManagedAnnotations existing desired) desired =
      preserveManagedAnnotations existing desired := by
  cases h : existing.lookup deploymentRevisionAnnotation with
  | none =>
      simp only [preserveManagedAnnotations, h]
      exact preserve_self desired
  | some rev => simp [preserveManagedAnnotations, h]

/-- Patching a patched Deployment changes only what the defaults have filled
in. -/
theorem fill_patched (hfill : FillsDefaults fill) (existing desired : Deployment) :
    fill (patchedDeployment (fill (patchedDeployment existing desired)) desired) =
      fill (patchedDeployment existing desired) := by
  refine Eq.trans (congrArg fill ?_) (hfill.again (patchedDeployment existing desired))
  have hmeta := hfill.metadata (patchedDeployment existing desired)
  generalize fill (patchedDeployment existing desired) = stored at hmeta
  simp only [patchedDeployment, hmeta, preserve_preserve]

theorem ensured_desiredRB :
    ensured fill cluster .roleBinding (some (desiredRB cluster)) = desiredRB cluster := by
  rw [ensured, if_neg (not_not.mpr rfl)]
  rfl

/-- A patched Deployment may look drifted to the next reconcile, but its patch
stores what is stored. -/
theorem ensured_patched (hfill : FillsDefaults fill) (existing : Deployment) :
    ensured fill cluster .deployment
        (some (fill (patchedDeployment existing (buildDesiredRobinDeployment cluster)))) =
      fill (patchedDeployment existing (buildDesiredRobinDeployment cluster)) := by
  rw [ensured]
  exact ite_eq_right_iff.mpr fun _ => fill_patched hfill _ _

/-- What is ensured stays as it is, for every kind and whatever was there at
first. -/
theorem ensured_ensured (hfill : FillsDefaults fill) (k : Kind) (existing : Option (Obj k)) :
    ensured fill cluster k (some (ensured fill cluster k existing)) =
      ensured fill cluster k existing := by
  cases k with
  | serviceAccount => cases existing <;> rfl
  | role => cases existing <;> rfl
  | roleBinding =>
      cases existing with
      | none => exact ensured_desiredRB
      | some existing =>
          -- a binding that was replaced is the desired one from then on
          by_cases hrole : existing.roleRef = (desiredRB cluster).roleRef
          · simp [ensured, hrole, relabel_relabel]
          · rw [show ensured fill cluster .roleBinding (some existing) = desiredRB cluster from
              if_pos hrole]
            exact ensured_desiredRB
  | deployment =>
      cases existing with
      | none =>
          -- the built Deployment is its own patch
          have hself : patchedDeployment (buildDesiredRobinDeployment cluster)
              (buildDesiredRobinDeployment cluster) = buildDesiredRobinDeployment cluster := by
            simp [patchedDeployment, preserve_self]
          have hpatched : ensured fill cluster .deployment (some (fill (patchedDeployment
              (buildDesiredRobinDeployment cluster) (buildDesiredRobinDeployment cluster)))) = _ :=
            ensured_patched hfill _
          rwa [hself] at hpatched
      | some existing =>
          -- a Deployment that was not drifted is still not
          by_cases hdrift : robinDeploymentNeedsUpdate existing (buildDesiredRobinDeployment cluster)
          · rw [show ensured fill cluster .deployment (some existing) = _ from if_pos hdrift]
            exact ensured_patched hfill existing
          · rw [show ensured fill cluster .deployment (some existing) = _ from if_neg hdrift]
            exact if_neg hdrift

/-- A reconcile has nothing to do about Robin's objects: all four are there,
and each is as the reconcile would leave it. -/
def Ensured (fill : Deployment → Deployment) (cluster : Redkey) (w : World) : Prop :=
  ∀ k, w.store.robin k (robinKey cluster) =
    some (ensured fill cluster k (w.store.robin k (robinKey cluster)))

/-- A reconcile brings Robin's objects into this state. -/
theorem ensured_ensureRobin (hfill : FillsDefaults fill) :
    Ensured fill cluster (w.ensureRobin fill cluster) := by
  intro k
  simp only [World.ensureRobin, World.setRobin, Function.update_self, ensured_ensured hfill]

theorem Ensured.ensureRobin_eq (h : Ensured fill cluster w) : w.ensureRobin fill cluster = w := by
  have hrobin : (fun k => Function.update (w.store.robin k) (robinKey cluster)
      (some (ensured fill cluster k (w.store.robin k (robinKey cluster))))) = w.store.robin := by
    funext k
    rw [← h k, Function.update_eq_self]
  rw [World.ensureRobin, hrobin]
  rfl

/-- The status is not looked at. -/
theorem ensured_written (status : RedkeyStatus) (k : Kind) (existing : Option (Obj k)) :
    ensured fill (cluster.written status) k existing = ensured fill cluster k existing := by
  cases k <;> cases existing <;> rfl

/-- A status write does not take them out of it. -/
theorem Ensured.written (h : Ensured fill cluster w) (status : RedkeyStatus) :
    Ensured fill (cluster.written status) w := by
  intro k
  rw [ensured_written]
  exact h k

end Robin

/-! ## Configs -/

/-- What was stored is read back. -/
theorem World.setRedkey_self (w : World) (key : NamespacedName) (live : Redkey) :
    (w.setRedkey key live).store.redkeys key = some live :=
  Store.setRedkey_redkeys_self _ _ _

section Configs

variable {w : World} {key : NamespacedName} {cluster : Redkey}

theorem listed_eq_nil : w.listed key = [] ↔ w.configsOf key = [] := by
  simp only [List.eq_nil_iff_forall_not_mem, World.mem_listed]

/-- The configs after a create that was accepted: the new one stands last. -/
theorem listed_withConfig (h : w.Distinct cluster.key) {highest : Option RedkeyConfig}
    (hlast : (w.listed cluster.key).getLast? = highest)
    (hfree : Configs.has w.store.configs (newConfig cluster highest).key = false) :
    (w.withConfig cluster highest).listed cluster.key =
      w.listed cluster.key ++ [newConfig cluster highest] := by
  subst hlast
  have hsorted := sorted_sortBySequence (w.configsOf cluster.key)
  refine (h.withConfig.eq_listed ?_ ?_).symm
  · rw [World.configsOf_withConfig, if_neg (by simp [hfree])]
    exact (perm_sortBySequence _).append_right _
  · -- the new sequence is above all the others
    refine List.pairwise_append.mpr ⟨hsorted, List.pairwise_singleton _ _, ?_⟩
    intro c hc d hd
    rw [List.mem_singleton.mp hd]
    exact (lt_nextSequence hsorted hc).le

theorem World.Distinct.eraseConfigs (h : w.Distinct key) (items : List RedkeyConfig) :
    (w.eraseConfigs items).Distinct key := by
  intro c hc d hd
  rw [World.configsOf_eraseConfigs] at hc hd
  exact h c (List.mem_of_mem_filter hc) d (List.mem_of_mem_filter hd)

/-- Filtering out a first part, by names that do not repeat, leaves the
second. -/
theorem filter_of_nodup {old kept : List RedkeyConfig}
    (h : ((old ++ kept).map RedkeyConfig.key).Nodup) :
    (old ++ kept).filter (fun c => decide (∀ d ∈ old, c.key ≠ d.key)) = kept := by
  rw [List.map_append, List.nodup_append] at h
  rw [List.filter_append, List.filter_eq_nil_iff.mpr ?_, List.filter_eq_self.mpr ?_]
  · rfl
  · intro c hc
    refine decide_eq_true fun d hd heq => ?_
    exact h.2.2 d.key (List.mem_map_of_mem hd) c.key (List.mem_map_of_mem hc) heq.symm
  · intro c hc
    simp only [decide_eq_true_eq, not_forall]
    exact ⟨c, hc, fun hne => hne rfl⟩

/-- Deleting the first configs leaves the others, in their order. -/
theorem listed_eraseConfigs (hkeys : (w.store.configs.map RedkeyConfig.key).Nodup)
    (h : w.Distinct key) {old kept : List RedkeyConfig} (hlisted : w.listed key = old ++ kept) :
    (w.eraseConfigs old).listed key = kept := by
  have hperm : (old ++ kept).Perm (w.configsOf key) := hlisted ▸ perm_sortBySequence _
  have hsorted : (old ++ kept).Pairwise fun a b => a.spec.sequence ≤ b.spec.sequence :=
    hlisted ▸ sorted_sortBySequence _
  -- names are unique in the store, so they are in the list
  have hnodup : ((old ++ kept).map RedkeyConfig.key).Nodup :=
    (hperm.map _).nodup_iff.mpr (hkeys.sublist (List.filter_sublist.map _))
  refine ((h.eraseConfigs old).eq_listed ?_ (List.pairwise_append.mp hsorted).2.1).symm
  rw [World.configsOf_eraseConfigs]
  exact filter_of_nodup hnodup ▸ hperm.filter _

/-- The configs after cleanup. -/
theorem listed_cleanup (hkeys : (w.store.configs.map RedkeyConfig.key).Nodup)
    (h : w.Distinct key) :
    (w.eraseConfigs (superseded (w.listed key))).listed key = afterCleanup (w.listed key) :=
  listed_eraseConfigs hkeys h (superseded_append_afterCleanup _).symm

theorem listed_eraseConfigs_all : (w.eraseConfigs (w.configsOf key)).listed key = [] :=
  listed_eq_nil.mpr World.configsOf_eraseConfigs_all

end Configs

namespace World.Stored

variable {w : World} {cluster : Redkey} {fill : Deployment → Deployment}

/-- Robin's objects are stored under their own key again. -/
theorem ensureRobin (h : w.Stored cluster.key) (hfill : ∀ d, (fill d).metadata = d.metadata) :
    (w.ensureRobin fill cluster).Stored cluster.key where
  redkey := h.redkey
  configs := h.configs
  robin k obj hobj := by
    have hself : (w.ensureRobin fill cluster).store.robin k (robinKey cluster) =
        some (ensured fill cluster k (w.store.robin k (robinKey cluster))) :=
      Function.update_self _ _ _
    obtain rfl := Option.some.inj (hself.symm.trans hobj)
    exact ensured_key hfill (h.robin k)
  distinct := h.distinct

/-- A new config has a new name and a new sequence. -/
theorem withConfig (h : w.Stored cluster.key) :
    (w.withConfig cluster (w.listed cluster.key).getLast?).Stored cluster.key := by
  have hdistinct := h.distinct.withConfig
  unfold World.withConfig at hdistinct ⊢
  split
  case isTrue => exact h
  -- the name is free, which is why it was accepted
  case isFalse hfree =>
    rw [if_neg hfree] at hdistinct
    refine ⟨h.redkey, ?_, h.robin, hdistinct⟩
    simp only [World.addConfig, List.map_append, List.map_cons, List.map_nil]
    refine h.configs.append (List.nodup_singleton _) ?_
    intro k hk hk'
    rcases List.mem_map.mp hk with ⟨c, hc, rfl⟩
    exact Configs.not_has_iff.mp (Bool.eq_false_iff.mpr hfree) c hc (List.mem_singleton.mp hk')

theorem withCurrentConfig (h : w.Stored cluster.key) :
    (w.withCurrentConfig cluster).Stored cluster.key := by
  unfold World.withCurrentConfig
  split
  · exact h.withConfig
  · exact h

theorem eraseConfigs (h : w.Stored cluster.key) (items : List RedkeyConfig) :
    (w.eraseConfigs items).Stored cluster.key :=
  ⟨h.redkey, h.configs.sublist (List.filter_sublist.map _), h.robin, h.distinct.eraseConfigs items⟩

theorem setRedkey (h : w.Stored cluster.key) (status : RedkeyStatus) :
    (w.setRedkey cluster.key (cluster.written status)).Stored cluster.key where
  redkey live hlive := by
    obtain rfl := Option.some.inj ((w.setRedkey_self _ _).symm.trans hlive)
    rfl
  configs := h.configs
  robin := h.robin
  distinct := h.distinct

theorem aggregated (h : w.Stored cluster.key) (now : Time) (L : List RedkeyConfig) :
    (w.aggregated now cluster L).Stored cluster.key := by
  unfold World.aggregated
  split
  · exact h
  · exact h.setRedkey _

/-- No object, no wrong key. -/
theorem dropRobin (h : w.Stored cluster.key) :
    (w.dropRobin (robinKey cluster)).Stored cluster.key where
  redkey := h.redkey
  configs := h.configs
  robin k obj hobj := by
    have hnone : (w.dropRobin (robinKey cluster)).store.robin k (robinKey cluster) = none :=
      Function.update_self _ _ _
    cases hnone.symm.trans hobj
  distinct := h.distinct

end World.Stored

/-! ## Status -/

/-- The Redkey without the time of the last status update, and without its
version, which goes up with every write of the status. -/
def Redkey.timeless (cluster : Redkey) : Redkey :=
  { cluster with
    resourceVersion := 0
    status := { cluster.status with lastUpdatedAt := none } }

/-- The store, but for the time of the last status update of one Redkey. Every
reconcile stamps that time. -/
def Store.timeless (key : NamespacedName) (s : Store) : Store :=
  { s with redkeys := Function.update s.redkeys key ((s.redkeys key).map Redkey.timeless) }

section Status

variable {w : World} {key : NamespacedName} {cluster : Redkey} {now now' : Time}

/-- Only the last write counts, and two writes that differ in the time only
are the same here. -/
theorem timeless_setRedkey {live live' : Redkey} (h : live.timeless = live'.timeless) :
    ((w.setRedkey key live).setRedkey key live').store.timeless key =
      (w.setRedkey key live).store.timeless key := by
  simp [World.setRedkey, Store.setRedkey, Store.timeless, h]

/-- Mirroring a config twice: the conditions are already there, and the
topology that is recorded is the same. -/
theorem timeless_aggregated (g : Int) (cluster : Redkey) (active : RedkeyConfig) :
    ((cluster.written (aggregatedStatus now g cluster active)).written (aggregatedStatus now' g
        (cluster.written (aggregatedStatus now g cluster active)) active)).timeless =
      (cluster.written (aggregatedStatus now g cluster active)).timeless := by
  have hconditions := aggregateConditions_idem now cluster.status.conditions active now'
  have hrecords : recordsTopology (cluster.written (aggregatedStatus now g cluster active)) active =
      recordsTopology cluster active := rfl
  unfold Redkey.timeless aggregatedStatus at *
  rw [hrecords]
  cases recordsTopology cluster active with
  | true => simp [Redkey.written, hconditions]
  | false => simp [Redkey.written, hconditions]

/-- The status of a cluster at zero is written twice. -/
theorem timeless_scaledToZero (cluster : Redkey) :
    ((cluster.written (scaledToZeroStatus now cluster)).written (scaledToZeroStatus now'
        (cluster.written (scaledToZeroStatus now cluster)))).timeless =
      (cluster.written (scaledToZeroStatus now cluster)).timeless := by
  have hconditions := scaledToZeroConditions_idem now now' cluster.status.conditions
  simp [Redkey.timeless, Redkey.written, scaledToZeroStatus, hconditions]

end Status

/-! ## Steady worlds -/

/-- Another reconcile changes nothing but the time of the status update,
whenever it runs. -/
def Steady (fill : Deployment → Deployment) (key : NamespacedName) (w : World) : Prop :=
  ∀ now, (w.effect fill now key).store.timeless key = w.store.timeless key

/-- The next reconcile asks Robin to scale down: it creates a config. This is
the one reconcile that does not look at what it has made. -/
def AsksForZero (key : NamespacedName) (w : World) : Prop :=
  ∃ cluster c, w.store.redkeys key = some cluster ∧ cluster.spec.primaries = 0 ∧
    (w.listed key).getLast? = some c ∧ c.spec.primaries ≠ 0 ∧
    Configs.has w.store.configs (newConfig cluster (some c)).key = false

section Steady

variable {fill : Deployment → Deployment} {w : World} {cluster : Redkey} {now : Time}

theorem aggregated_eq {L : List RedkeyConfig} {active : RedkeyConfig}
    (h : selectActiveConfig L = some active) :
    w.aggregated now cluster L = w.setRedkey cluster.key
      (cluster.written (aggregatedStatus now cluster.generation cluster active)) := by
  rw [World.aggregated, h]

/-- Nothing is left, and the status says so. -/
theorem steady_asleep (hzero : cluster.spec.primaries = 0) (hlisted : w.listed cluster.key = []) :
    Steady fill cluster.key
      (w.setRedkey cluster.key (cluster.written (scaledToZeroStatus now cluster))) := by
  have hlive := w.setRedkey_self cluster.key (cluster.written (scaledToZeroStatus now cluster))
  have hlisted' : (w.setRedkey cluster.key (cluster.written (scaledToZeroStatus now cluster))).listed
      (cluster.written (scaledToZeroStatus now cluster)).key = [] := hlisted
  intro now'
  rw [World.effect_of_zero hlive hzero, World.scaledToZero_of_nil hlisted']
  exact timeless_setRedkey (timeless_scaledToZero cluster).symm

/-- Robin is at work on the config for zero, and the status says so. -/
theorem steady_waiting (hzero : cluster.spec.primaries = 0) (hrobin : Ensured fill cluster w)
    {c : RedkeyConfig} (hlast : (w.listed cluster.key).getLast? = some c)
    (hc : c.spec.primaries = 0) (hphase : c.status.configPhase ≠ .applied) :
    Steady fill cluster.key (w.aggregated now cluster (w.listed cluster.key)) := by
  have hne : w.listed cluster.key ≠ [] := by
    intro hnil
    rw [hnil] at hlast
    cases hlast
  rcases exists_active hne with ⟨active, hactive⟩
  rw [aggregated_eq hactive]
  -- the next reconcile starts from what this one has written
  generalize hwritten : cluster.written (aggregatedStatus now cluster.generation cluster active) = live
  have hzero' : live.spec.primaries = 0 := hwritten ▸ hzero
  have hkey : live.key = cluster.key := hwritten ▸ rfl
  have hlisted : (w.setRedkey cluster.key live).listed live.key = w.listed cluster.key := by
    rw [hkey]
    rfl
  have hrobin' : Ensured fill live (w.setRedkey cluster.key live) := hwritten ▸ hrobin.written _
  intro now'
  rw [World.effect_of_zero (w.setRedkey_self _ live) hzero',
    World.scaledToZero_of_waiting (hlisted ▸ hlast) hc hphase, hlisted, hrobin'.ensureRobin_eq,
    aggregated_eq hactive, hkey]
  subst hwritten
  exact timeless_setRedkey (timeless_aggregated _ _ _).symm

/-- The configs are cleaned up, and the status mirrors the active one. -/
theorem steady_configured (hpos : cluster.spec.primaries ≠ 0) (hrobin : Ensured fill cluster w)
    (hne : w.listed cluster.key ≠ []) (hclean : superseded (w.listed cluster.key) = []) :
    Steady fill cluster.key (w.aggregated now cluster (w.listed cluster.key)) := by
  rcases exists_active hne with ⟨active, hactive⟩
  have hafter : afterCleanup (w.listed cluster.key) = w.listed cluster.key := by
    simpa [hclean] using superseded_append_afterCleanup (w.listed cluster.key)
  rw [aggregated_eq hactive]
  generalize hwritten : cluster.written (aggregatedStatus now cluster.generation cluster active) = live
  have hpos' : live.spec.primaries ≠ 0 := hwritten ▸ hpos
  have hkey : live.key = cluster.key := hwritten ▸ rfl
  have hlisted : (w.setRedkey cluster.key live).listed live.key = w.listed cluster.key := by
    rw [hkey]
    rfl
  have hrobin' : Ensured fill live (w.setRedkey cluster.key live) := hwritten ▸ hrobin.written _
  -- the generation was observed, so no new config is needed
  have hobserved : ∀ latest, needsNewConfig live latest = false := by
    intro latest
    subst hwritten
    unfold needsNewConfig
    split
    · split
      · rfl
      · exact decide_eq_false (lt_irrefl _)
    · exact decide_eq_false (lt_irrefl _)
  intro now'
  rw [World.effect_of_primaries (w.setRedkey_self _ live) hpos', World.configured, hrobin'.ensureRobin_eq,
    World.withCurrentConfig, hlisted, if_neg (by simp [hne, hobserved]), World.cleanedUp, hlisted,
    if_neg hne, hclean, hafter, World.eraseConfigs_nil, aggregated_eq hactive, hkey]
  subst hwritten
  exact timeless_setRedkey (timeless_aggregated _ _ _).symm

/-- A new config does not matter to Robin's objects. -/
theorem ensured_withConfig {highest : Option RedkeyConfig} (h : Ensured fill cluster w) :
    Ensured fill cluster (w.withConfig cluster highest) := by
  unfold World.withConfig
  split
  · exact h
  · exact h

theorem withConfig_of_has {highest : Option RedkeyConfig}
    (h : Configs.has w.store.configs (newConfig cluster highest).key = true) :
    w.withConfig cluster highest = w := if_pos h

/-- Without configs after `ensureConfig` the name of the first one is taken,
by a config that is not listed, and nothing happened. -/
theorem withCurrentConfig_of_nil (hdistinct : w.Distinct cluster.key)
    (h : (w.withCurrentConfig cluster).listed cluster.key = []) : w.withCurrentConfig cluster = w := by
  unfold World.withCurrentConfig at h ⊢
  split
  case isFalse => rfl
  case isTrue hneeds =>
    rw [if_pos hneeds] at h
    cases hhas : Configs.has w.store.configs
        (newConfig cluster (w.listed cluster.key).getLast?).key with
    | true => exact withConfig_of_has hhas
    | false =>
        rw [listed_withConfig hdistinct rfl hhas] at h
        exact absurd h (by simp)

/-- A reconcile with primaries leaves a steady world, whatever it found. -/
theorem steady_of_primaries (hfill : FillsDefaults fill) (hw : w.Stored cluster.key)
    (hlive : w.store.redkeys cluster.key = some cluster) (hpos : cluster.spec.primaries ≠ 0) :
    Steady fill cluster.key (w.configured fill now cluster) := by
  have hu : (w.ensureRobin fill cluster).Stored cluster.key := hw.ensureRobin hfill.metadata
  have hrobin : Ensured fill cluster (w.ensureRobin fill cluster) := ensured_ensureRobin hfill
  have hlive' : (w.ensureRobin fill cluster).store.redkeys cluster.key = some cluster := hlive
  unfold World.configured
  generalize w.ensureRobin fill cluster = u at hu hrobin hlive' ⊢
  unfold World.cleanedUp
  split
  case isFalse hne =>
    -- what is listed now is what the cleanup has left, and there is nothing to clean up in it
    have hlisted := listed_cleanup hu.withCurrentConfig.configs hu.withCurrentConfig.distinct
    have hrobin' : Ensured fill cluster (u.withCurrentConfig cluster) := by
      unfold World.withCurrentConfig
      split
      · exact ensured_withConfig hrobin
      · exact hrobin
    rw [← hlisted]
    refine steady_configured hpos hrobin' ?_ ?_
    · rw [hlisted]
      exact afterCleanup_ne_nil hne
    · rw [hlisted]
      exact superseded_afterCleanup _
  case isTrue hnil =>
    -- the name of the first config is taken, and stays so
    have hsame := withCurrentConfig_of_nil hu.distinct hnil
    rw [hsame]
    intro now'
    rw [World.effect_of_primaries hlive' hpos, World.configured, hrobin.ensureRobin_eq,
      World.cleanedUp, if_pos hnil, hsame]

/-- A reconcile without primaries, unless it is the one that asks Robin to
scale down. -/
theorem steady_of_zero (hfill : FillsDefaults fill)
    (hlive : w.store.redkeys cluster.key = some cluster) (hzero : cluster.spec.primaries = 0)
    (hasks : ¬ AsksForZero cluster.key w) :
    Steady fill cluster.key (w.scaledToZero fill now cluster) := by
  have hrobin : Ensured fill cluster (w.ensureRobin fill cluster) := ensured_ensureRobin hfill
  cases hlast : (w.listed cluster.key).getLast? with
  | none =>
      have hnil := List.getLast?_eq_none_iff.mp hlast
      rw [World.scaledToZero_of_nil hnil]
      exact steady_asleep hzero hnil
  | some c =>
      by_cases hc : c.spec.primaries = 0
      · by_cases hphase : c.status.configPhase = .applied
        · rw [World.scaledToZero_of_applied hlast hc hphase]
          exact steady_asleep hzero
            (listed_eraseConfigs_all (w := w.dropRobin (robinKey cluster)))
        · rw [World.scaledToZero_of_waiting hlast hc hphase]
          exact steady_waiting hzero hrobin hlast hc hphase
      · -- the name of the new config is taken
        have hhas : Configs.has w.store.configs (newConfig cluster (some c)).key = true := by
          by_contra hfree
          exact hasks ⟨cluster, c, hlive, hzero, hlast, hc, Bool.eq_false_iff.mpr hfree⟩
        have hsame : (w.ensureRobin fill cluster).withConfig cluster (some c) =
            w.ensureRobin fill cluster := withConfig_of_has hhas
        have hlast' : ((w.ensureRobin fill cluster).listed cluster.key).getLast? = some c := hlast
        rw [World.scaledToZero_of_primaries hlast hc, hsame]
        intro now'
        rw [World.effect_of_zero (w := w.ensureRobin fill cluster) hlive hzero,
          World.scaledToZero_of_primaries hlast' hc, hrobin.ensureRobin_eq, hsame]

/-- The scale-to-zero path keeps the store in form. -/
theorem stored_scaledToZero (hfill : FillsDefaults fill) (hw : w.Stored cluster.key) :
    (w.scaledToZero fill now cluster).Stored cluster.key := by
  have hu : (w.ensureRobin fill cluster).Stored cluster.key := hw.ensureRobin hfill.metadata
  cases hlast : (w.listed cluster.key).getLast? with
  | none =>
      rw [World.scaledToZero_of_nil (List.getLast?_eq_none_iff.mp hlast)]
      exact hw.setRedkey _
  | some c =>
      by_cases hc : c.spec.primaries = 0
      · by_cases hphase : c.status.configPhase = .applied
        · rw [World.scaledToZero_of_applied hlast hc hphase]
          exact (hw.dropRobin.eraseConfigs _).setRedkey _
        · rw [World.scaledToZero_of_waiting hlast hc hphase]
          exact hu.aggregated _ _
      · rw [World.scaledToZero_of_primaries hlast hc, ← hlast]
        exact hu.withConfig

/-- So does every reconcile, and the next one starts from such a store
again. -/
theorem stored_effect (hfill : FillsDefaults fill) {key : NamespacedName} (hw : w.Stored key) :
    (w.effect fill now key).Stored key := by
  cases hlive : w.store.redkeys key with
  | none =>
      rw [World.effect_of_none hlive]
      exact hw
  | some cluster =>
      obtain rfl : cluster.key = key := hw.redkey cluster hlive
      by_cases hzero : cluster.spec.primaries = 0
      · rw [World.effect_of_zero hlive hzero]
        exact stored_scaledToZero hfill hw
      · rw [World.effect_of_primaries hlive hzero, World.configured, World.cleanedUp]
        have hv : ((w.ensureRobin fill cluster).withCurrentConfig cluster).Stored cluster.key :=
          (hw.ensureRobin hfill.metadata).withCurrentConfig
        split
        · exact hv
        · exact (hv.eraseConfigs _).aggregated _ _

/-- A status write does not change the configs. -/
theorem listed_aggregated {key : NamespacedName} {L : List RedkeyConfig} :
    (w.aggregated now cluster L).listed key = w.listed key := by
  unfold World.aggregated
  split <;> rfl

/-- A reconcile leaves the spec alone, since only the status is written. -/
theorem spec_configured (hlive : w.store.redkeys cluster.key = some cluster) {live : Redkey}
    (h : (w.configured fill now cluster).store.redkeys cluster.key = some live) :
    live.spec = cluster.spec := by
  have hlive' : ((w.ensureRobin fill cluster).withCurrentConfig cluster).store.redkeys cluster.key =
      some cluster := by
    rw [redkeys_withCurrentConfig]
    exact hlive
  unfold World.configured World.cleanedUp World.aggregated at h
  split at h
  · rw [Option.some.inj (h.symm.trans hlive')]
  · split at h
    · rw [Option.some.inj (h.symm.trans hlive')]
    · rw [← Option.some.inj ((World.setRedkey_self _ _ _).symm.trans h)]
      rfl

/-- After a reconcile with `primaries = 0` the last config asks for zero, or
there is none. -/
theorem not_asks_scaledToZero (hw : w.Stored cluster.key)
    (hlive : w.store.redkeys cluster.key = some cluster) (hzero : cluster.spec.primaries = 0) :
    ¬ AsksForZero cluster.key (w.scaledToZero fill now cluster) := by
  rintro ⟨cluster', c', hlive', -, hlast', hc', hfree⟩
  cases hlast : (w.listed cluster.key).getLast? with
  -- case A: there is nothing to ask
  | none =>
      -- case C: nothing is left
      have hnil := List.getLast?_eq_none_iff.mp hlast
      rw [World.scaledToZero_of_nil hnil] at hlast'
      cases hlast.symm.trans hlast'
  | some c =>
      by_cases hc : c.spec.primaries = 0
      · by_cases hphase : c.status.configPhase = .applied
        · have hnil : (w.tornDown now cluster).listed cluster.key = [] :=
            listed_eraseConfigs_all (w := w.dropRobin (robinKey cluster))
          rw [World.scaledToZero_of_applied hlast hc hphase, hnil] at hlast'
          cases hlast'
        · -- case D: the config for zero is still the last one
          rw [World.scaledToZero_of_waiting hlast hc hphase, listed_aggregated] at hlast'
          obtain rfl : c = c' := Option.some.inj (hlast.symm.trans hlast')
          exact hc' hc
      · -- case B: the config for zero was created, or its name is taken
        rw [World.scaledToZero_of_primaries hlast hc] at hlast' hlive' hfree
        have hdistinct : (w.ensureRobin fill cluster).Distinct cluster.key := hw.distinct
        change (w.ensureRobin fill cluster).store.redkeys cluster.key = some cluster at hlive
        change ((w.ensureRobin fill cluster).listed cluster.key).getLast? = some c at hlast
        generalize w.ensureRobin fill cluster = u at *
        cases hhas : Configs.has u.store.configs (newConfig cluster (some c)).key with
        | true =>
            rw [withConfig_of_has hhas] at hlast' hlive' hfree
            obtain rfl : c = c' := Option.some.inj (hlast.symm.trans hlast')
            obtain rfl : cluster = cluster' := Option.some.inj (hlive.symm.trans hlive')
            cases hhas.symm.trans hfree
        | false =>
            -- the config that was created asks for zero
            rw [listed_withConfig hdistinct hlast hhas, List.getLast?_concat] at hlast'
            rw [← Option.some.inj hlast'] at hc'
            exact hc' hzero

/-- No two reconciles in a row ask Robin to scale down. -/
theorem not_asks_effect {key : NamespacedName} (hw : w.Stored key) :
    ¬ AsksForZero key (w.effect fill now key) := by
  cases hlive : w.store.redkeys key with
  | none =>
      rw [World.effect_of_none hlive]
      rintro ⟨cluster, c, hcluster, -⟩
      cases hlive.symm.trans hcluster
  | some cluster =>
      obtain rfl : cluster.key = key := hw.redkey cluster hlive
      by_cases hzero : cluster.spec.primaries = 0
      · rw [World.effect_of_zero hlive hzero]
        exact not_asks_scaledToZero hw hlive hzero
      · rw [World.effect_of_primaries hlive hzero]
        rintro ⟨cluster', c, hlive', hzero', -⟩
        exact hzero (spec_configured hlive hlive' ▸ hzero')

/-- One reconcile leads to a steady world, unless it is to ask for zero. -/
theorem steady_effect (hfill : FillsDefaults fill) {key : NamespacedName} (hw : w.Stored key)
    (hasks : ¬ AsksForZero key w) : Steady fill key (w.effect fill now key) := by
  cases hlive : w.store.redkeys key with
  | none =>
      rw [World.effect_of_none hlive]
      intro now'
      rw [World.effect_of_none hlive]
  | some cluster =>
      obtain rfl : cluster.key = key := hw.redkey cluster hlive
      by_cases hzero : cluster.spec.primaries = 0
      · rw [World.effect_of_zero hlive hzero]
        exact steady_of_zero hfill hlive hzero hasks
      · rw [World.effect_of_primaries hlive hzero]
        exact steady_of_primaries hfill hw hlive hzero

end Steady

/-! ## Three reconciles -/

/-- From every stored state, the store after three undisturbed reconciles is
the one after two, up to the time of the last status update (and the version
of the Redkey that goes with it); with primaries it is the one after one. -/
theorem reconcile_fixed_point {fill : Deployment → Deployment} (hfill : FillsDefaults fill)
    (key : NamespacedName) {w w₁ w₂ w₃ : World} {x₁ x₂ x₃ : Except Err Result} (hw : w.Stored key)
    (h₁ : ReconcileRuns fill key w x₁ w₁) (h₂ : ReconcileRuns fill key w₁ x₂ w₂)
    (h₃ : ReconcileRuns fill key w₂ x₃ w₃) :
    w₃.store.timeless key = w₂.store.timeless key ∧
    (∀ live, w.store.redkeys key = some live → 0 < live.spec.primaries →
      w₂.store.timeless key = w₁.store.timeless key) := by
  rcases reconcile_effect hfill.metadata hw h₁ with ⟨-, now₁, rfl⟩
  have hw₁ : (w.effect fill now₁ key).Stored key := stored_effect hfill hw
  rcases reconcile_effect hfill.metadata hw₁ h₂ with ⟨-, now₂, rfl⟩
  have hw₂ : ((w.effect fill now₁ key).effect fill now₂ key).Stored key := stored_effect hfill hw₁
  rcases reconcile_effect hfill.metadata hw₂ h₃ with ⟨-, now₃, rfl⟩
  -- the second reconcile does not ask for zero, as the first has done it if need be
  refine ⟨steady_effect hfill hw₁ (not_asks_effect hw) now₃, ?_⟩
  intro live hlive hpos
  refine steady_effect hfill hw ?_ now₂
  rintro ⟨cluster, c, hcluster, hzero, -⟩
  obtain rfl : cluster = live := Option.some.inj (hcluster.symm.trans hlive)
  exact hpos.ne' hzero

/-- A server that fills in the rollout strategy. -/
def fillStrategy (d : Deployment) : Deployment :=
  { d with defaulted := d.defaulted ∪ (∅ : StringMap).insert "strategy" "RollingUpdate" }

/-- The strategy is filled in once. -/
theorem fillsDefaults_fillStrategy : FillsDefaults fillStrategy where
  metadata _ := rfl
  again d := by
    have hunion : ∀ m n : StringMap, m ∪ n ∪ n = m ∪ n := by
      intro m n
      refine Finmap.ext_lookup fun k => ?_
      by_cases hk : k ∈ m ∪ n
      · rw [Finmap.lookup_union_left hk]
      · rw [Finmap.lookup_union_right hk, Finmap.lookup_union_right fun hm => hk (by simp [hm])]
    simp [fillStrategy, hunion]

/-- A new cluster is in form. -/
theorem initial_stored (cluster : Redkey) : (World.initial cluster).Stored cluster.key where
  redkey := (World.initial_formed cluster).keyed
  configs := List.nodup_nil
  robin k obj hobj := by cases hobj
  distinct c hc := by cases hc

theorem reconcile_fixed_point_initial :
    ∃ w₁ w₂ w₃ : World, ∃ x₁ x₂ x₃,
      ReconcileRuns fillStrategy sampleCluster.key (World.initial sampleCluster) x₁ w₁ ∧
      ReconcileRuns fillStrategy sampleCluster.key w₁ x₂ w₂ ∧
      ReconcileRuns fillStrategy sampleCluster.key w₂ x₃ w₃ ∧
      w₃.store.timeless sampleCluster.key = w₂.store.timeless sampleCluster.key ∧
      w₂.store.timeless sampleCluster.key = w₁.store.timeless sampleCluster.key := by
  rcases reconcileRuns_settled fillStrategy sampleCluster.key (World.initial sampleCluster) with
    ⟨x₁, h₁⟩
  rcases reconcileRuns_settled fillStrategy sampleCluster.key _ with ⟨x₂, h₂⟩
  rcases reconcileRuns_settled fillStrategy sampleCluster.key _ with ⟨x₃, h₃⟩
  rcases reconcile_fixed_point fillsDefaults_fillStrategy sampleCluster.key
    (initial_stored sampleCluster) h₁ h₂ h₃ with ⟨hthree, htwo⟩
  refine ⟨_, _, _, x₁, x₂, x₃, h₁, h₂, h₃, hthree, htwo sampleCluster ?_ (by decide)⟩
  simp [World.initial]

end RedkeyOperator
