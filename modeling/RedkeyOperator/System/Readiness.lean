import RedkeyOperator.System.Fresh

/-!
# Ready

The phase a reconcile publishes is the one of the active config: the one in progress, or else the
lowest one that cleanup left. Cleanup leaves an Applied config in front when there is one, so a
Ready that comes from an Applied config is earned. A Superseded config counts as settled as well,
though, and when nothing is Applied and nothing in progress it may be the lowest one
(`ready_without_applied`). In the runs in which that is not so when the configs are listed, Ready
means that a config of the cluster has been marked Applied (`ready_after_applied`).
-/

namespace RedkeyOperator

open Interleaved Interleaved.Op

/-! ## The system -/

/-- Users keep some primaries. The path for zero publishes Ready without any
config, so it is left out. -/
def KeepsPrimaries (_ : World) (_ : Redkey) (spec : RedkeySpec) : Prop := 0 < spec.primaries

/-- Robin takes up the configs in sequence order, and marks one Superseded
only while a newer one is not terminal. -/
def TakesTurns (configs : List RedkeyConfig) (c : RedkeyConfig) (status : RedkeyConfigStatus) :
    Prop :=
  (status.configPhase = .superseded → c.status.configPhase = .superseded ∨
    ∃ d ∈ configs, c.spec.sequence < d.spec.sequence ∧
      isTerminalConfigPhase d.status.configPhase = false) ∧
  (status.configPhase = .inProgress ∨ status.configPhase = .applied →
    ∀ d ∈ configs, d.spec.sequence < c.spec.sequence →
      isTerminalConfigPhase d.status.configPhase = true)

/-- The operator, the users and Robin, in the runs in which every call meets
`ok`. -/
def readyRuns (fill : Deployment → Deployment) (key : NamespacedName)
    (ok : (c : Call) → World → Resp c → Prop) : Sem Call Resp World :=
  freshRuns fill (World.Env key KeepsPrimaries TakesTurns) ok

/-- A config is Applied or in progress, or the lowest one is not Superseded
without an error. The status of a config in error is not ready, whatever its
phase. -/
def Earned (configs : List RedkeyConfig) : Prop :=
  (∃ c ∈ configs, c.status.configPhase = .applied ∨ c.status.configPhase = .inProgress) ∨
  ∀ c ∈ configs, (∀ d ∈ configs, c.spec.sequence ≤ d.spec.sequence) →
    c.status.configPhase = .superseded → c.status.status = .error

/-- The call lists the configs that are cleaned up and aggregated, not those
of a teardown. -/
def Call.listsToSettle : Call → Bool
  | .listConfigs _ _ _ .listConfigs => true
  | _ => false

/-- The configs are in such a state when they are listed. The other calls are
not restricted. -/
def ListsEarned (key : NamespacedName) (c : Call) (w : World) (_ : Resp c) : Prop :=
  c.listsToSettle = true → Earned (w.configsOf key)

instance (configs : List RedkeyConfig) (c : RedkeyConfig) (status : RedkeyConfigStatus) :
    Decidable (TakesTurns configs c status) :=
  inferInstanceAs (Decidable ((_ → _ ∨ ∃ d ∈ configs, _) ∧ (_ → ∀ d ∈ configs, _ → _)))

instance (w : World) (live : Redkey) (spec : RedkeySpec) :
    Decidable (KeepsPrimaries w live spec) :=
  inferInstanceAs (Decidable (0 < spec.primaries))

instance (configs : List RedkeyConfig) : Decidable (Earned configs) :=
  inferInstanceAs (Decidable ((∃ c ∈ configs, _) ∨ ∀ c ∈ configs, (∀ d ∈ configs, _) → _))

instance (key : NamespacedName) (c : Call) (w : World) (r : Resp c) :
    Decidable (ListsEarned key c w r) :=
  inferInstanceAs (Decidable (c.listsToSettle = true → Earned (w.configsOf key)))

/-- The start: some primaries and no config. -/
structure Unconfigured (key : NamespacedName) (w : World) : Prop where
  formed : w.Formed key
  primaries : ∀ live, w.store.redkeys key = some live → 0 < live.spec.primaries
  configs : w.configsOf key = []

/-- A config of the cluster has been marked Applied. -/
def HasApplied (key : NamespacedName) (w : World) : Prop :=
  ∃ c ∈ w.applied, c.selected key.ns clusterLabel key.name = true

/-! ## The active config -/

/-- An active config that counts as ready comes with an Applied one, if the
list was `Earned`: without an Applied config nothing is cleaned up, and the
active config is the one in progress, which is not ready, or the lowest
one. -/
theorem exists_applied_of_ready {L : List RedkeyConfig} {active : RedkeyConfig}
    (hsorted : L.Pairwise fun a b => a.spec.sequence ≤ b.spec.sequence) (hearned : Earned L)
    (hactive : selectActiveConfig (afterCleanup L) = some active)
    (hready : isConfigReady active = true) : ∃ c ∈ L, c.status.configPhase = .applied := by
  by_contra hno
  have hnone : ∀ c ∈ L, c.status.configPhase ≠ .applied := fun c hc h => hno ⟨c, hc, h⟩
  rw [afterCleanup_of_lastApplied_eq_none (lastApplied_eq_none hnone)] at hactive
  obtain ⟨hmem, hcases⟩ := selectActiveConfig_cases hactive
  obtain ⟨hterminal, hstatus⟩ : isTerminalConfigPhase active.status.configPhase = true ∧
      active.status.status ≠ .error := by simpa [isConfigReady] using hready
  -- nothing is Applied, so a terminal config is a Superseded one
  have hsuperseded : active.status.configPhase = .superseded := by
    simpa [isTerminalConfigPhase, hnone active hmem] using hterminal
  rcases hcases with hprogress | ⟨hhead, hothers⟩
  · rw [hprogress] at hsuperseded
    cases hsuperseded
  · rcases hearned with ⟨c, hc, happlied | hprogress⟩ | hlowest
    · exact hnone c hc happlied
    · rcases hothers with rfl | hothers
      · rw [List.mem_singleton.mp hc, hsuperseded] at hprogress
        cases hprogress
      · exact hothers c hc hprogress
    · -- the active config is the lowest one, which is in error
      obtain ⟨rest, rfl⟩ := List.head?_eq_some_iff.mp hhead
      refine hstatus (hlowest active List.mem_cons_self ?_ hsuperseded)
      intro d hd
      rcases List.mem_cons.mp hd with rfl | hd
      · exact le_refl _
      · exact (List.pairwise_cons.mp hsorted).1 d hd

/-! ## The invariant -/

namespace Readiness

/-- What holds between reconciles: Applied configs are on record. `HasApplied`
never turns false again, also after the config has been deleted. -/
structure Recorded (key : NamespacedName) (w : World) : Prop where
  formed : w.Formed key
  primaries : ∀ live, w.store.redkeys key = some live → 0 < live.spec.primaries
  logged : (∃ c ∈ w.configsOf key, c.status.configPhase = .applied) → HasApplied key w

/-- After a list. The list is not the current state any more when it is used,
but what was Applied then is on record. -/
structure Listed (key : NamespacedName) (L : List RedkeyConfig) (w : World) : Prop where
  recorded : Recorded key w
  sorted : L.Pairwise fun a b => a.spec.sequence ≤ b.spec.sequence
  earned : Earned L
  logged : (∃ c ∈ L, c.status.configPhase = .applied) → HasApplied key w

/-- After cleanup: what may be published as Ready. A ready config that is
selected shows that one was Applied. -/
structure Kept (key : NamespacedName) (L : List RedkeyConfig) (w : World) : Prop where
  recorded : Recorded key w
  ready : ∀ active, selectActiveConfig L = some active → isConfigReady active = true →
    HasApplied key w

/-- A Ready that is written has been earned: some config of the cluster has
been marked Applied by then. -/
def ReadyEarned (key : NamespacedName) : (c : Call) → World → Resp c → World → Prop
  | .updateRedkeyStatus written, _, _, w' => written.status.phase = .ready → HasApplied key w'
  | _, _, _, _ => True

variable {key : NamespacedName} {w w' : World} {L : List RedkeyConfig}
variable {fill : Deployment → Deployment} {ok : (c : Call) → World → Resp c → Prop}

theorem recorded_of_unconfigured (h : Unconfigured key w) : Recorded key w where
  formed := h.formed
  primaries := h.primaries
  logged := by
    rintro ⟨c, hc, -⟩
    simp [h.configs] at hc

theorem env_hasApplied (h : World.Env key KeepsPrimaries TakesTurns w w') (hw : HasApplied key w) :
    HasApplied key w' := by
  obtain ⟨c, hc, hsel⟩ := hw
  cases h with
  | userUpdate => exact ⟨c, hc, hsel⟩
  | robinWrite => exact ⟨c, List.mem_append_left _ hc, hsel⟩

/-- Robin and the user keep the invariant: a config that gets Applied is
recorded by the step that reports it. -/
theorem stable_recorded : Stable (readyRuns fill key ok) (Recorded key) := by
  rintro w w' ⟨-, henv⟩ hw
  cases henv with
  | @userUpdate live spec hlive hedit =>
      have hkey := hw.formed.keyed live hlive
      refine ⟨hw.formed.setRedkey ((Redkey.edit_key _ _).trans hkey), ?_, hw.logged⟩
      intro live' hlive'
      simp only [World.setRedkey, Store.setRedkey_redkeys_self, Option.some.injEq] at hlive'
      exact hlive' ▸ hedit
  | @robinWrite t status ht hreport =>
      refine ⟨hw.formed.robinWrite _ _, hw.primaries, ?_⟩
      rintro ⟨c, hc, happlied⟩
      obtain ⟨c₀, hc₀, hmeta, hspec, hstatus⟩ := hw.formed.mem_robinWrite ht hc
      by_cases hbefore : c₀.status.configPhase = .applied
      · exact env_hasApplied (.robinWrite ht hreport) (hw.logged ⟨c₀, hc₀, hbefore⟩)
      -- the report marks the config Applied, and is recorded
      · obtain ⟨rfl, hnew⟩ := hstatus.resolve_left fun heq => hbefore (heq ▸ happlied)
        obtain ⟨hmem, hsel⟩ := mem_configsOf.mp hc₀
        refine ⟨{ c₀ with status := status }, List.mem_append_right _ ?_, hsel⟩
        refine List.mem_map.mpr ⟨c₀, List.mem_filter.mpr ⟨hmem, ?_⟩, rfl⟩
        simp [hbefore, hnew ▸ happlied]

/-- What a list has shown stays on record. -/
theorem stable_listed : Stable (readyRuns fill key ok) (Listed key L) :=
  fun w w' hstep hw => ⟨stable_recorded w w' hstep hw.recorded, hw.sorted, hw.earned,
    fun h => env_hasApplied hstep.2 (hw.logged h)⟩

/-- What cleanup has left can still be published. -/
theorem stable_kept : Stable (readyRuns fill key ok) (Kept key L) :=
  fun w w' hstep hw => ⟨stable_recorded w w' hstep hw.recorded,
    fun active hactive hready => env_hasApplied hstep.2 (hw.ready active hactive hready)⟩

theorem quiet_ready : Quiet (readyRuns fill key ok) (ReadyEarned key) :=
  fresh_quiet fun _ _ _ => trivial

/-- A status write keeps the spec, and with it the primaries. -/
theorem Recorded.setRedkey (h : Recorded key w) {live written stored : Redkey}
    (hlive : w.store.redkeys key = some live) (hstored : live.writeStatus written = .ok stored) :
    Recorded key (w.setRedkey key stored) := by
  obtain ⟨-, rfl⟩ := Redkey.writeStatus_ok hstored
  refine ⟨h.formed.setRedkey (h.formed.keyed live hlive), ?_, h.logged⟩
  intro live' hlive'
  simp only [World.setRedkey, Store.setRedkey_redkeys_self, Option.some.injEq] at hlive'
  exact hlive' ▸ h.primaries live hlive

/-- A deletion leaves fewer configs to be recorded. -/
theorem Recorded.eraseConfig (h : Recorded key w) (k : NamespacedName) :
    Recorded key (w.eraseConfig k) where
  formed := h.formed.eraseConfig k
  primaries := h.primaries
  logged := by
    rintro ⟨c, hc, happlied⟩
    exact h.logged ⟨c, (mem_configsOf_eraseConfig.mp hc).1, happlied⟩

theorem Recorded.addConfig (h : Recorded key w) {cluster : Redkey} {highest : Option RedkeyConfig}
    (hkey : cluster.key = key)
    (hnew : ∀ c ∈ w.store.configs, c.key ≠ (newConfig cluster highest).key) :
    Recorded key (w.addConfig (newConfig cluster highest)) where
  formed := h.formed.addConfig hkey hnew
  primaries := h.primaries
  logged := by
    rintro ⟨c, hc, happlied⟩
    rcases mem_configsOf_addConfig hc with hc | rfl
    · exact h.logged ⟨c, hc, happlied⟩
    · cases happlied

/-! ## A reconcile -/

variable {cluster : Redkey} {now : Time} {r : RedkeyReconciler}

/-- A triple of the system with the invariant after errors. -/
abbrev ReadyTriple {α : Type} (fill : Deployment → Deployment) (key : NamespacedName)
    (A : World → Prop) (p : Rec α) (Q : α → World → Prop) : Prop :=
  Triple (readyRuns fill key (ListsEarned key)) (ReadyEarned key) (Recorded key) A p Q

/-- The functions for Robin's objects do not touch configs or Redkeys. -/
theorem robin_triple {α : Type} {p : Rec α}
    (hp : p.Uses (KeyedReads fun _ => True) (Call.OnRobin fun _ => True)) :
    ReadyTriple fill key (Recorded key) p fun _ => Recorded key := by
  refine fresh_robin_triple stable_recorded (fun _ hw => hw)
    (fun w robin hw => ⟨hw.formed.setRobin robin, hw.primaries, hw.logged⟩) ?_ hp
  intro c w r w' hc _ _
  cases c <;> trivial

/-- The runs are those in which the list is `Earned`. -/
theorem list_triple :
    ReadyTriple fill cluster.key (Recorded cluster.key) (listConfigs cluster) fun L =>
      Listed cluster.key L := by
  refine fresh_list_triple stable_recorded (fun _ hw => hw) (fun _ _ _ => trivial) ?_
  intro w items hw hperm hok
  have hmem : ∀ c, c ∈ sortBySequence items ↔ c ∈ w.configsOf cluster.key :=
    fun c => mem_sortBySequence.trans hperm.mem_iff
  refine ⟨hw, sorted_sortBySequence items, ?_, ?_⟩
  · -- the order of the list does not matter
    have hearned := hok rfl
    simpa only [Earned, hmem] using hearned
  · rintro ⟨c, hc, happlied⟩
    exact hw.logged ⟨c, (hmem c).mp hc, happlied⟩

/-- Creating a config, whether it succeeds or not. -/
theorem create_triple {highest : Option RedkeyConfig} :
    ReadyTriple fill cluster.key (Recorded cluster.key) (createNewConfig cluster highest) fun _ =>
      Recorded cluster.key :=
  fresh_create_triple quiet_ready stable_recorded stable_recorded (fun _ hw => hw)
    (fun _ hw => hw) (fun _ _ _ _ _ => trivial) (fun _ hw hnew => hw.addConfig rfl hnew)
    fun _ hw => hw

/-- Cleanup leaves what `afterCleanup` says, so an active config that is ready
comes with an Applied one. -/
theorem cleanup_triple :
    ReadyTriple fill cluster.key (Listed cluster.key L) (cleanupSupersededConfigs L) fun res w =>
      (res.2 = none → Kept cluster.key res.1 w) ∧ (res.2 ≠ none → Recorded cluster.key w) := by
  refine (cleanupSupersededConfigs_triple quiet_ready stable_listed L ?_).post ?_
  · intro i _ c _
    exact fresh_delete_call (fun _ _ _ _ _ => trivial) fun w hw =>
      ⟨hw.recorded.eraseConfig c.key, hw.sorted, hw.earned, hw.logged⟩
  · rintro ⟨kept, err⟩ w ⟨hw, hkept⟩
    refine ⟨fun herr => ⟨hw.recorded, ?_⟩, fun _ => hw.recorded⟩
    intro active hactive hready
    rw [hkept herr] at hactive
    exact hw.logged (exists_applied_of_ready hw.sorted hw.earned hactive hready)

/-- The one write that may publish Ready. -/
theorem aggregateStatus_triple :
    ReadyTriple fill cluster.key (Kept cluster.key L) (aggregateStatus now cluster L) fun _ =>
      Recorded cluster.key := by
  refine (fresh_aggregate_triple
    (Q := fun latest w => latest.key = cluster.key ∧ Kept cluster.key L w)
    stable_kept (fun latest w w' hstep hw => ⟨hw.1, stable_kept w w' hstep hw.2⟩)
    (fun _ hw => hw.recorded) (fun _ _ _ => trivial)
    (fun w latest hw hlatest => ⟨hw.recorded.formed.keyed latest hlatest, hw⟩) ?_).post
    fun _ w hw => hw.recorded
  rintro activeConfig hactive latest w r w' ⟨hkey, hw⟩ hexec
  refine fresh_write_call ?_ (fun _ hw => hw) ?_ w r w' hw hexec
  · intro w r w' _ hw' hphase
    -- the published phase is Ready only when the active config is
    refine hw'.ready activeConfig hactive ?_
    change computePhaseFromConditions _ = .ready at hphase
    rw [computePhase_aggregateConditions] at hphase
    by_contra hready
    simp only [hready, if_false] at hphase
    split at hphase <;> cases hphase
  · intro w live stored hw hlive hstored
    change w.store.redkeys latest.key = some live at hlive
    -- the write goes to the key of the Redkey that was read again
    change Kept cluster.key L (w.setRedkey latest.key stored)
    rw [hkey] at hlive ⊢
    exact ⟨hw.recorded.setRedkey hlive hstored, hw.ready⟩

/-- A whole reconcile. The scale-to-zero path is never taken, since there are
primaries. -/
theorem reconcile_triple :
    ReadyTriple fill key (Recorded key) (reconcile r now key) fun _ => Recorded key := by
  refine RedkeyOperator.reconcile_triple
    (fun cluster w => cluster.key = key ∧ 0 < cluster.spec.primaries ∧ Recorded key w) quiet_ready
    stable_recorded stable_recorded stable_recorded
    (fresh_get_call (fun _ hw => hw) (fun _ _ _ => trivial) (fun w cluster hw hlive =>
      ⟨hw.formed.keyed cluster hlive, hw.primaries cluster hlive, hw⟩) fun _ hw _ => hw) ?_ ?_
  · rintro cluster hzero w ⟨-, hpos, -⟩
    exact absurd hzero hpos.ne'
  · rintro cluster _ w ⟨rfl, -, hw⟩
    refine reconcileConfigs_triple (Listed cluster.key) (Recorded cluster.key) (Listed cluster.key)
      (Kept cluster.key) quiet_ready stable_recorded stable_recorded
      (robin_triple (ensureRBAC_uses trivial)) (robin_triple (ensureRobinDeployment_uses trivial))
      list_triple (fun L _ => create_triple.pre fun w hw => hw.recorded) list_triple
      (fun L w _ _ hw => hw) (fun w hw => hw.recorded) (fun L _ => cleanup_triple)
      (fun L => aggregateStatus_triple) w hw

end Readiness

/-! ## Every run -/

/-- In the runs in which the configs are listed only when Ready would be
earned, a status with the phase Ready is written only after a config of the
cluster has been marked Applied. -/
theorem ready_after_applied (fill : Deployment → Deployment) (key : NamespacedName) {w w' : World}
    {written : Redkey} {k : Resp (.updateRedkeyStatus written) → Rec Result}
    {r : Resp (.updateRedkeyStatus written)}
    (hm : Reachable (readyRuns fill key (ListsEarned key)) (Reconciles key) (Unconfigured key)
      ⟨w, some (.call (.updateRedkeyStatus written) k)⟩)
    (hexec : (readyRuns fill key (ListsEarned key)).exec (.updateRedkeyStatus written) w r w')
    (hready : written.status.phase = .ready) :
    ∃ c ∈ w'.applied, c.selected key.ns clusterLabel key.name = true := by
  refine reachable_call (I := Readiness.Recorded key) (Q := fun _ => Readiness.Recorded key)
    (G := Readiness.ReadyEarned key) (fun w => Readiness.recorded_of_unconfigured)
    Readiness.stable_recorded (fun _ => Readiness.stable_recorded) (fun _ _ hw => hw) ?_ hm hexec
    hready
  -- every reconcile of the run starts from the invariant
  rintro p ⟨r, now, rfl⟩ w hw
  exact Readiness.reconcile_triple.entry hw

/-- A new cluster, reconciled once. -/
def configured : World := (World.initial sampleCluster).reconciled id sampleCluster.key 7

/-- Robin has applied the first config. -/
def firstApplied : World :=
  (configured.reported sampleCluster.key 1 { configPhase := .inProgress }).reported
    sampleCluster.key 1 { configPhase := .applied, status := .ready }

/-- The next reconcile, up to its status write. -/
def readyWrite : Machine Call Resp (Except Err Result) World :=
  Machine.advance (fun c w => World.answer id (fun _ => false) c w) 7
    ⟨firstApplied, some (reconcile { resyncInterval := 60 } 8 sampleCluster.key)⟩

theorem initial_unconfigured : Unconfigured sampleCluster.key (World.initial sampleCluster) where
  formed := World.initial_formed sampleCluster
  primaries live hlive := by
    simp only [World.initial, if_true, Option.some.injEq] at hlive
    rw [← hlive]
    decide
  configs := rfl

/-- Robin reports twice between the two reconciles. -/
theorem readyWrite_reachable :
    Reachable (readyRuns id sampleCluster.key (ListsEarned sampleCluster.key))
      (Reconciles sampleCluster.key) (Unconfigured sampleCluster.key) readyWrite := by
  have hconfigured : Reachable (readyRuns id sampleCluster.key (ListsEarned sampleCluster.key))
      (Reconciles sampleCluster.key) (Unconfigured sampleCluster.key) ⟨configured, none⟩ :=
    World.reachable_reconciled id (Reachable.idle initial_unconfigured) (by decide +kernel)
      (by decide +kernel)
  have happlied : Reachable (readyRuns id sampleCluster.key (ListsEarned sampleCluster.key))
      (Reconciles sampleCluster.key) (Unconfigured sampleCluster.key) ⟨firstApplied, none⟩ :=
    (hconfigured.env ⟨trivial, World.env_reported (by decide +kernel)⟩).env
      ⟨trivial, World.env_reported (by decide +kernel)⟩
  refine World.reachable_answer id _ (happlied.start ⟨_, _, rfl⟩) 7 ?_
  rintro p ⟨rfl⟩
  decide +kernel

/-- The second reconcile publishes Ready, and a config was marked Applied. -/
theorem readyWrite_after_applied :
    ∃ (written : Redkey) (w' : World), nextWrite readyWrite.thread = some written ∧
      written.status.phase = .ready ∧
      ∃ c ∈ w'.applied, c.selected sampleCluster.ns clusterLabel sampleCluster.name = true := by
  have hphase : (nextWrite readyWrite.thread).any (·.status.phase == .ready) = true := by
    decide +kernel
  obtain ⟨written, hwritten, htrue⟩ := (Option.any_eq_true _ _).mp hphase
  have hready : written.status.phase = .ready := eq_of_beq htrue
  obtain ⟨k, -, hm⟩ := reachable_nextWrite readyWrite_reachable hwritten
  have happlied := ready_after_applied id sampleCluster.key hm
    (World.answer_exec id (fun _ => false) (.updateRedkeyStatus written) readyWrite.shared
      (Or.inr (by simp [ListsEarned, Call.listsToSettle]))) hready
  exact ⟨written, _, hwritten, hready, happlied⟩

/-! ### Ready too early

The first config of a new cluster is still waiting when the user scales up and the second one is
created. Robin skips the first. Nothing is Applied or in progress now, and the Superseded config
is the lowest one, so the next reconcile publishes Ready. -/

/-- The user has scaled up, and the second config is there. -/
def reconfigured : World :=
  (configured.edited sampleCluster.key { primaries := 4 }).reconciled id sampleCluster.key 8

/-- Robin has skipped the first config, and the operator has noticed. -/
def skipped : World :=
  (reconfigured.reported sampleCluster.key 1 { configPhase := .superseded }).reconciled id
    sampleCluster.key 9

/-- The same as a run in which the lists are not restricted. -/
theorem skipped_reachable :
    Reachable (readyRuns id sampleCluster.key fun _ _ _ => True) (Reconciles sampleCluster.key)
      (fun w => w = World.initial sampleCluster) ⟨skipped, none⟩ := by
  have hconfigured : Reachable (readyRuns id sampleCluster.key fun _ _ _ => True)
      (Reconciles sampleCluster.key) (fun w => w = World.initial sampleCluster)
      ⟨configured, none⟩ :=
    World.reachable_reconciled id (Reachable.idle rfl) (Prog.checks_true _ _ _ _)
      (by decide +kernel)
  have hreconfigured : Reachable (readyRuns id sampleCluster.key fun _ _ _ => True)
      (Reconciles sampleCluster.key) (fun w => w = World.initial sampleCluster)
      ⟨reconfigured, none⟩ :=
    World.reachable_reconciled id
      (hconfigured.env ⟨trivial, World.env_edited _ (by decide +kernel)⟩)
      (Prog.checks_true _ _ _ _) (by decide +kernel)
  exact World.reachable_reconciled id
    (hreconfigured.env ⟨trivial, World.env_reported (by decide +kernel)⟩)
    (Prog.checks_true _ _ _ _) (by decide +kernel)

/-- A new cluster ends up Ready, and no config has ever been marked
Applied. -/
theorem ready_without_applied :
    Unconfigured sampleCluster.key (World.initial sampleCluster) ∧
    ∃ w, Reachable (readyRuns id sampleCluster.key fun _ _ _ => True) (Reconciles sampleCluster.key)
        (fun w => w = World.initial sampleCluster) ⟨w, none⟩ ∧
      (w.store.redkeys sampleCluster.key).map (·.status.phase) = some .ready ∧ w.applied = [] :=
  ⟨initial_unconfigured, skipped, skipped_reachable, by decide +kernel, rfl⟩

end RedkeyOperator
