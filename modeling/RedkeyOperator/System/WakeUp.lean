import RedkeyOperator.System.Fresh
import RedkeyOperator.Api.Admission

/-!
# Waking up

A cluster with storage that was scaled to zero keeps its topology in
`status.lastAppliedPrimaries` and `status.lastAppliedReplicasPerPrimary`, and admission lets a user
leave zero only for that topology. Admission looks at the previous spec alone, though, and the
operator at the spec it happens to read: two edits between two reconciles lead to any topology
(`woken_elsewhere`). Where a cluster without configs is edited only to go back to zero, or without
touching the topology, the first config with primaries has the recorded one
(`wakes_with_recorded_topology`).
-/

namespace RedkeyOperator

open Interleaved Interleaved.Op

/-! ## The system -/

/-- An edit that the two root rules admit, of a cluster that stays with or
without storage. The other rules do not matter here. -/
def Wakes (_ : World) (live : Redkey) (spec : RedkeySpec) : Prop :=
  restoresPrimaries live spec = true ∧ restoresReplicas live spec = true ∧
    spec.ephemeral = live.spec.ephemeral

/-- While there is no config, a spec with primaries is taken back to zero or
keeps its topology. This is what admission does not ask for. -/
def WaitsForConfig (key : NamespacedName) (w : World) (live : Redkey) (spec : RedkeySpec) : Prop :=
  w.configsOf key = [] → live.spec.primaries ≠ 0 → spec.primaries = 0 ∨
    spec.primaries = live.spec.primaries ∧
      spec.replicasPerPrimary = live.spec.replicasPerPrimary

/-- The operator, a user who makes the edits of `user`, and Robin. Any call
may be lost. -/
def wakeRuns (fill : Deployment → Deployment) (key : NamespacedName)
    (user : World → Redkey → RedkeySpec → Prop) : Sem Call Resp World :=
  freshRuns fill (World.Env key user fun _ _ _ => True) fun _ _ _ => True

/-- A cluster with storage and the topology on record: `p` primaries with `r`
replicas each. -/
structure Remembers (key : NamespacedName) (p r : Int) (live : Redkey) : Prop where
  key_eq : live.key = key
  persistent : live.spec.ephemeral = false
  primaries : live.status.lastAppliedPrimaries = p
  replicas : live.status.lastAppliedReplicasPerPrimary = r

/-- The start: such a cluster, at zero and without configs. -/
structure Hibernated (key : NamespacedName) (p r : Int) (w : World) : Prop where
  live : ∃ live, w.store.redkeys key = some live ∧ Remembers key p r live ∧ live.spec.primaries = 0
  configs : w.configsOf key = []
  created : w.created = []

/-- The first config with primaries that was created, whether it still exists
or not. -/
def World.firstWithPrimaries (w : World) : Option RedkeyConfig :=
  w.created.find? fun c => 0 < c.spec.primaries

/-! ## The invariant -/

namespace WakeUp

variable {key : NamespacedName} {p r : Int} {w w' : World} {fill : Deployment → Deployment}

/-- A spec at zero or with the recorded topology. The live Redkey of a
sleeping cluster has one, and so has the snapshot of every reconcile. -/
structure Restores (key : NamespacedName) (p r : Int) (live : Redkey) : Prop extends
    Remembers key p r live where
  topology : live.spec.primaries = 0 ∨ live.spec.primaries = p ∧ live.spec.replicasPerPrimary = r

/-- No config with primaries so far. -/
structure Asleep (key : NamespacedName) (p r : Int) (w : World) : Prop where
  live : ∀ live, w.store.redkeys key = some live → Restores key p r live
  configs : w.configsOf key = []
  first : w.firstWithPrimaries = none

/-- The first config with primaries has the recorded topology. Later ones may
have any other. -/
def Awake (p r : Int) (w : World) : Prop :=
  ∃ c, w.firstWithPrimaries = some c ∧ c.spec.primaries = p ∧ c.spec.replicasPerPrimary = r

/-- A cluster is asleep until its first config with primaries, and awake from
then on. -/
def Inv (key : NamespacedName) (p r : Int) (w : World) : Prop :=
  Awake p r w ∨ Asleep key p r w

/-- Every call keeps the invariant. -/
def Keeps (key : NamespacedName) (p r : Int) (c : Call) (w : World) (_ : Resp c) (w' : World) :
    Prop :=
  Inv key p r w → Inv key p r w'

theorem inv_of_hibernated (h : Hibernated key p r w) : Inv key p r w := by
  obtain ⟨live, hlive, hrem, hzero⟩ := h.live
  have hfirst : w.firstWithPrimaries = none := by simp [World.firstWithPrimaries, h.created]
  refine Or.inr ⟨fun live' hlive' => ?_, h.configs, hfirst⟩
  obtain rfl : live' = live := Option.some.inj (hlive'.symm.trans hlive)
  exact ⟨hrem, Or.inl hzero⟩

/-- The history only grows. -/
theorem Awake.append (h : Awake p r w) {new : List RedkeyConfig}
    (hw' : w'.created = w.created ++ new) : Awake p r w' := by
  obtain ⟨c, hc, htopology⟩ := h
  refine ⟨c, ?_, htopology⟩
  unfold World.firstWithPrimaries at hc ⊢
  rw [hw', List.find?_append, hc]
  rfl

/-- So an awake cluster stays awake, whatever the call is. -/
theorem Awake.exec (h : Awake p r w) {c : Call} {resp : Resp c}
    (hexec : World.exec fill c w resp w') : Awake p r w' :=
  h.append hexec.2.1

/-- An admitted edit of a sleeping cluster. At zero, admission asks for the
topology on record; otherwise the user waits for the config. -/
theorem Restores.edit (hp : 0 < p) {live : Redkey} (h : Restores key p r live) {spec : RedkeySpec}
    (hadmitted : Wakes w live spec) (hwaits : WaitsForConfig key w live spec)
    (hconfigs : w.configsOf key = []) : Restores key p r (live.edit spec) := by
  obtain ⟨hprimaries, hreplicas, hephemeral⟩ := hadmitted
  have hpersistent : spec.ephemeral = false := hephemeral.trans h.persistent
  refine ⟨⟨h.key_eq, hpersistent, h.primaries, h.replicas⟩, ?_⟩
  change spec.primaries = 0 ∨ spec.primaries = p ∧ spec.replicasPerPrimary = r
  by_cases hzero : live.spec.primaries = 0
  · -- a record of no primaries would not bind the user
    have hne : p ≠ 0 := hp.ne'
    simp only [restoresPrimaries, restoresReplicas, hpersistent, hzero, h.primaries, h.replicas,
      decide_eq_true_eq] at hprimaries hreplicas
    tauto
  · have hsame := h.topology.resolve_left hzero
    rcases hwaits hconfigs hzero with hback | hkept
    · exact Or.inl hback
    · exact Or.inr ⟨hkept.1.trans hsame.1, hkept.2.trans hsame.2⟩

/-- The edits of this section: they are admitted, and the next one waits for a
config of the last. -/
def Patient (key : NamespacedName) (w : World) (live : Redkey) (spec : RedkeySpec) : Prop :=
  Wakes w live spec ∧ WaitsForConfig key w live spec

theorem stable_awake {user : World → Redkey → RedkeySpec → Prop} :
    Stable (wakeRuns fill key user) (Awake p r) := by
  rintro w w' ⟨-, henv⟩ hw
  cases henv with
  | userUpdate => exact hw
  | robinWrite => exact hw

/-- A sleeping cluster has no config that Robin could report on. -/
theorem stable_asleep (hp : 0 < p) : Stable (wakeRuns fill key (Patient key)) (Asleep key p r) := by
  rintro w w' ⟨-, henv⟩ hw
  cases henv with
  | @userUpdate live spec hlive hedit =>
      refine ⟨?_, hw.configs, hw.first⟩
      intro live' hlive'
      simp only [World.setRedkey, Store.setRedkey_redkeys_self, Option.some.injEq] at hlive'
      rw [← hlive']
      exact (hw.live live hlive).edit hp hedit.1 hedit.2 hw.configs
  | robinWrite hc =>
      rw [hw.configs] at hc
      cases hc

/-- An assertion about a sleeping cluster, which an awake one has got past. -/
theorem stable_or (hp : 0 < p) {A : Prop} :
    Stable (wakeRuns fill key (Patient key)) fun w => Awake p r w ∨ Asleep key p r w ∧ A :=
  fun w w' hstep hw => hw.imp (stable_awake w w' hstep)
    fun h => ⟨stable_asleep hp w w' hstep h.1, h.2⟩

/-- Between reconciles, the one or the other. -/
theorem stable_inv (hp : 0 < p) : Stable (wakeRuns fill key (Patient key)) (Inv key p r) :=
  fun w w' hstep hw => hw.imp (stable_awake w w' hstep) (stable_asleep hp w w' hstep)

theorem quiet_wake : Quiet (wakeRuns fill key (Patient key)) (Keeps key p r) :=
  fresh_quiet fun _ _ _ h => h

/-! ## A reconcile -/

/-- A triple of the system with the invariant after errors. -/
abbrev WakeTriple {α : Type} (fill : Deployment → Deployment) (key : NamespacedName) (p r : Int)
    (A : World → Prop) (prog : Rec α) (Q : α → World → Prop) : Prop :=
  Triple (wakeRuns fill key (Patient key)) (Keeps key p r) (Inv key p r) A prog Q

/-- Once awake, whatever runs: the first config with primaries is what it
is. -/
theorem awake_triple {α : Type} (prog : Rec α) :
    WakeTriple fill key p r (Awake p r) prog fun _ => Awake p r := by
  refine (Triple.of_uses stable_awake ?_ (uses_true prog)).error fun _ hw => Or.inl hw
  intro c w resp w' _ hw hexec
  have hw' : Awake p r w' := freshRuns_state hw (fun _ _ _ hexec => hw.exec hexec) hexec
  exact ⟨trivial, fun _ => Or.inl hw', hw'⟩

/-- Awake, or working on a spec that may become a config. -/
def At (key : NamespacedName) (p r : Int) (cluster : Redkey) (w : World) : Prop :=
  Awake p r w ∨ Asleep key p r w ∧ Restores key p r cluster

/-- The same after a list: a sleeping cluster has no configs to be listed. -/
def Listed (key : NamespacedName) (p r : Int) (cluster : Redkey) (L : List RedkeyConfig)
    (w : World) : Prop :=
  Awake p r w ∨ Asleep key p r w ∧ Restores key p r cluster ∧ L = []

variable {cluster : Redkey} {now : Time} {settings : RedkeyReconciler} {L : List RedkeyConfig}

theorem At.inv (h : At key p r cluster w) : Inv key p r w := h.imp_right And.left

theorem Listed.inv (h : Listed key p r cluster L w) : Inv key p r w := h.imp_right And.left

/-- Configs are listed only once there are some. -/
theorem Listed.awake (hL : L ≠ []) (h : Listed key p r cluster L w) : Awake p r w :=
  h.resolve_right fun hasleep => hL hasleep.2.2

theorem robin_triple (hp : 0 < p) {α : Type} {prog : Rec α}
    (hprog : prog.Uses (KeyedReads fun _ => True) (Call.OnRobin fun _ => True)) :
    WakeTriple fill key p r (At key p r cluster) prog fun _ => At key p r cluster := by
  refine fresh_robin_triple (stable_or hp) (fun _ hw => hw.inv) ?_
    (fun _ _ _ _ _ _ hw' _ => hw'.inv) hprog
  exact fun w robin hw => hw.imp_right fun h => ⟨⟨h.1.live, h.1.configs, h.1.first⟩, h.2⟩

theorem list_triple (hp : 0 < p) (hkey : cluster.key = key) :
    WakeTriple fill key p r (At key p r cluster) (listConfigs cluster) fun L =>
      Listed key p r cluster L := by
  refine fresh_list_triple (stable_or hp) (fun _ hw => hw.inv) (fun _ _ _ h => h) ?_
  intro w items hw hperm _
  refine hw.imp_right fun h => ⟨h.1, h.2, ?_⟩
  -- the list is a permutation of the empty one
  rw [hkey, h.1.configs] at hperm
  rw [hperm.eq_nil]
  rfl

/-- The config that wakes the cluster. If the create is refused or lost, the
cluster is still asleep. -/
theorem create_triple (hp : 0 < p) (hpos : cluster.spec.primaries ≠ 0) :
    WakeTriple fill key p r (Listed key p r cluster L) (createNewConfig cluster L.getLast?) fun _ =>
      At key p r cluster := by
  refine fresh_create_triple quiet_wake (stable_or hp) (stable_or hp) (fun _ hw => hw.inv)
    (fun _ hw => hw.inv) ?_ ?_ fun w hw => hw.imp_right fun h => ⟨h.1, h.2.1⟩
  · rintro w resp w' hw (rfl | hw')
    · exact fun h => h
    · exact fun _ => hw'.inv
  · intro w hw _
    rcases hw with hawake | ⟨hasleep, hcluster, -⟩
    · exact Or.inl (hawake.append rfl)
    · -- the snapshot has primaries, so it has those on record
      obtain ⟨hprimaries, hreplicas⟩ := hcluster.topology.resolve_left hpos
      refine Or.inl ⟨newConfig cluster L.getLast?, ?_, hprimaries, hreplicas⟩
      have hfirst := hasleep.first
      have hnew : 0 < (newConfig cluster L.getLast?).spec.primaries :=
        hp.trans_eq hprimaries.symm
      unfold World.firstWithPrimaries at hfirst ⊢
      simp [World.addConfig, hfirst, hnew]

/-- The status of a cluster at zero carries the record of the snapshot
over. -/
theorem scaledToZero_triple (hp : 0 < p) :
    WakeTriple fill key p r (At key p r cluster) (updateStatusScaledToZero now cluster) fun _ =>
      Inv key p r := by
  refine api_triple (stable_or hp) ?_
  intro w resp w' hw hexec
  have hw' : Inv key p r w' := by
    refine (fresh_write_call (G := Keeps key p r) (A := At key p r cluster)
      (fun _ _ _ _ hw' _ => hw') (fun _ hw => hw.inv) ?_
      w resp w' hw hexec).2
    rintro w live stored (hawake | ⟨hasleep, hcluster⟩) hlive hstored
    · exact Or.inl hawake
    · obtain ⟨-, rfl⟩ := Redkey.writeStatus_ok hstored
      change w.store.redkeys cluster.key = some live at hlive
      change Inv key p r (w.setRedkey cluster.key _)
      rw [hcluster.key_eq] at hlive ⊢
      refine Or.inr ⟨?_, hasleep.configs, hasleep.first⟩
      intro live' hlive'
      simp only [World.setRedkey, Store.setRedkey_redkeys_self, Option.some.injEq] at hlive'
      rw [← hlive']
      have hold := hasleep.live live hlive
      -- the spec is that of the live Redkey, the record that of the snapshot
      have hremembers : Remembers key p r { live with
          status := scaledToZeroStatus now cluster, resourceVersion := live.resourceVersion + 1 } :=
        ⟨hold.key_eq, hold.persistent, hcluster.primaries, hcluster.replicas⟩
      exact ⟨hremembers, hold.topology⟩
  exact ⟨fun _ => hw', outcome_const hw' hw'⟩

/-- Without configs there is only the status to write; with configs the
cluster is awake. -/
theorem reconcileScaleToZero_inv (hp : 0 < p) (hkey : cluster.key = key) :
    WakeTriple fill key p r (At key p r cluster) (reconcileScaleToZero settings now cluster)
      fun _ => Inv key p r := by
  have hawake : ∀ {α : Type} (prog : Rec α) (L : List RedkeyConfig) (c : RedkeyConfig),
      L.getLast? = some c →
      WakeTriple fill key p r (Listed key p r cluster L) prog fun _ => Inv key p r := by
    intro α prog L c hlast
    have hne : L ≠ [] := List.ne_nil_of_mem (List.mem_of_getLast? hlast)
    exact (awake_triple prog).mono (fun w hw => hw.awake hne) fun _ w hw => Or.inl hw
  refine reconcileScaleToZero_triple (Listed key p r cluster) (list_triple hp hkey) ?_
    (fun L c hlast _ => hawake _ L c hlast) (fun L c hlast _ _ => hawake _ L c hlast)
    fun L c hlast _ _ => hawake _ L c hlast
  exact (scaledToZero_triple hp).pre fun w hw => hw.imp_right fun h => ⟨h.1, h.2.1⟩

/-- With primaries, the cluster is awake after the create, or the reconcile
ends before cleanup. -/
theorem reconcileConfigs_inv (hp : 0 < p) (hkey : cluster.key = key)
    (hpos : cluster.spec.primaries ≠ 0) :
    WakeTriple fill key p r (At key p r cluster) (reconcileConfigs settings now cluster) fun _ =>
      Inv key p r := by
  refine reconcileConfigs_triple (Listed key p r cluster) (At key p r cluster)
    (Listed key p r cluster) (fun _ => Awake p r) quiet_wake (stable_inv hp) (stable_inv hp)
    (robin_triple hp (ensureRBAC_uses trivial))
    (robin_triple hp (ensureRobinDeployment_uses trivial)) (list_triple hp hkey)
    (fun L _ => create_triple hp hpos) (list_triple hp hkey)
    (fun L w _ _ hw => hw) (fun w hw => hw.inv) ?_
    fun L => (awake_triple _).post fun _ w hw => Or.inl hw
  intro L hne
  exact (awake_triple _).mono (fun w hw => hw.awake hne) fun res w hw =>
    ⟨fun _ => hw, fun _ => Or.inl hw⟩

/-- A whole reconcile keeps the invariant. -/
theorem reconcile_inv (hp : 0 < p) :
    WakeTriple fill key p r (Inv key p r) (reconcile settings now key) fun _ => Inv key p r := by
  refine reconcile_triple (At key p r) quiet_wake (stable_inv hp) (stable_inv hp) (stable_inv hp)
    (fresh_get_call (fun _ hw => hw) (fun _ _ _ h => h) ?_ fun _ hw _ => hw) ?_ ?_
  · -- the snapshot of a sleeping cluster is its live Redkey
    exact fun w cluster hw hlive => hw.imp_right fun h => ⟨h, h.live cluster hlive⟩
  · rintro cluster _ w (hawake | ⟨hasleep, hcluster⟩)
    · exact ((awake_triple _).post fun _ w hw => Or.inl hw) w hawake
    · exact reconcileScaleToZero_inv hp hcluster.key_eq w (Or.inr ⟨hasleep, hcluster⟩)
  · rintro cluster hpos w (hawake | ⟨hasleep, hcluster⟩)
    · exact ((awake_triple _).post fun _ w hw => Or.inl hw) w hawake
    · exact reconcileConfigs_inv hp hcluster.key_eq hpos w (Or.inr ⟨hasleep, hcluster⟩)

end WakeUp

/-! ## Every run -/

/-- When a cluster without configs is only taken back to zero, or edited
without touching its topology, the first config with primaries has the
recorded topology. -/
theorem wakes_with_recorded_topology (fill : Deployment → Deployment) (key : NamespacedName)
    {p r : Int} (hp : 0 < p) {m : Machine Call Resp (Except Err Result) World}
    (hm : Reachable
      (wakeRuns fill key fun w live spec => Wakes w live spec ∧ WaitsForConfig key w live spec)
      (Reconciles key) (Hibernated key p r) m)
    {c : RedkeyConfig} (hc : m.shared.firstWithPrimaries = some c) :
    c.spec.primaries = p ∧ c.spec.replicasPerPrimary = r := by
  have hinv : WakeUp.Inv key p r m.shared := by
    refine reachable_always (I := WakeUp.Inv key p r) (Q := fun _ => WakeUp.Inv key p r)
      (G := WakeUp.Keeps key p r) (fun w => WakeUp.inv_of_hibernated) (WakeUp.stable_inv hp)
      (fun _ => WakeUp.stable_inv hp) (fun _ _ hw => hw) ?_ (fun w => WakeUp.inv_of_hibernated)
      (WakeUp.stable_inv hp) (fun _ _ _ _ hG => hG) hm
    -- every reconcile of the run starts from the invariant
    rintro prog ⟨settings, now, rfl⟩ w hw
    exact (WakeUp.reconcile_inv hp).entry hw
  rcases hinv with ⟨d, hd, htopology⟩ | hasleep
  · obtain rfl : c = d := Option.some.inj (hc.symm.trans hd)
    exact htopology
  · rw [hasleep.first] at hc
    cases hc

instance (key : NamespacedName) (w : World) (live : Redkey) (spec : RedkeySpec) :
    Decidable (Wakes w live spec ∧ WaitsForConfig key w live spec) :=
  inferInstanceAs (Decidable ((_ ∧ _ ∧ _) ∧ (w.store.configs.filter _ = [] → _ → _)))

/-- A cluster with storage at zero, which had three primaries with a replica
each. -/
def hibernatedCluster : Redkey :=
  { sampleCluster with
    spec := {
      primaries := 0, replicasPerPrimary := 1, ephemeral := false, storage := "1Gi"
      purgeKeysOnRebalance := some false }
    status := { lastAppliedPrimaries := 3, lastAppliedReplicasPerPrimary := 1 } }

/-- Its spec with so many primaries. -/
def wakingSpec (primaries : Int) : RedkeySpec :=
  { hibernatedCluster.spec with primaries := primaries }

theorem initial_hibernated :
    Hibernated hibernatedCluster.key 3 1 (World.initial hibernatedCluster) :=
  ⟨⟨hibernatedCluster, by simp [World.initial], ⟨rfl, rfl, rfl, rfl⟩, rfl⟩, rfl, rfl⟩

/-- The user wakes the cluster, and it is reconciled. -/
def woken : World :=
  ((World.initial hibernatedCluster).edited hibernatedCluster.key (wakingSpec 3)).reconciled id
    hibernatedCluster.key 7

/-- One edit to the recorded topology, and a reconcile. -/
theorem woken_with_recorded_topology :
    ∃ c, woken.firstWithPrimaries = some c ∧ c.spec.primaries = 3 ∧
      c.spec.replicasPerPrimary = 1 := by
  have hm : Reachable (wakeRuns id hibernatedCluster.key fun w live spec =>
        Wakes w live spec ∧ WaitsForConfig hibernatedCluster.key w live spec)
      (Reconciles hibernatedCluster.key) (Hibernated hibernatedCluster.key 3 1) ⟨woken, none⟩ :=
    World.reachable_reconciled id ((Reachable.idle initial_hibernated).env
      ⟨trivial, World.env_edited _ (by decide +kernel)⟩) (Prog.checks_true _ _ _ _)
      (by decide +kernel)
  obtain ⟨c, hc⟩ : ∃ c, woken.firstWithPrimaries = some c :=
    Option.isSome_iff_exists.mp (by decide +kernel)
  exact ⟨c, hc, wakes_with_recorded_topology id hibernatedCluster.key (by decide) hm hc⟩

/-- Two edits before the next reconcile: to the recorded topology, as
admission demands, and from there to five primaries. -/
def editedTwice : World :=
  ((World.initial hibernatedCluster).edited hibernatedCluster.key (wakingSpec 3)).edited
    hibernatedCluster.key (wakingSpec 5)

/-- Admission lets both edits pass: the second does not start from zero. -/
theorem editedTwice_reachable :
    Reachable (wakeRuns id hibernatedCluster.key fun _ live spec => admitted live spec = true)
      (Reconciles hibernatedCluster.key) (Hibernated hibernatedCluster.key 3 1)
      ⟨editedTwice, none⟩ := by
  have hidle : Reachable
      (wakeRuns id hibernatedCluster.key fun _ live spec => admitted live spec = true)
      (Reconciles hibernatedCluster.key) (Hibernated hibernatedCluster.key 3 1)
      ⟨World.initial hibernatedCluster, none⟩ := Reachable.idle initial_hibernated
  have hfirst := hidle.env ⟨trivial, World.env_edited (wakingSpec 3) (by decide +kernel)⟩
  exact hfirst.env ⟨trivial, World.env_edited _ (by decide +kernel)⟩

/-- With edits that all validation rules admit, the first config with
primaries has five of them, not the three on record. -/
theorem woken_elsewhere :
    ∃ w, Reachable (wakeRuns id hibernatedCluster.key fun _ live spec => admitted live spec = true)
        (Reconciles hibernatedCluster.key) (Hibernated hibernatedCluster.key 3 1) ⟨w, none⟩ ∧
      w.firstWithPrimaries.map (·.spec.primaries) = some 5 :=
  ⟨editedTwice.reconciled id hibernatedCluster.key 7,
    World.reachable_reconciled id editedTwice_reachable (Prog.checks_true _ _ _ _)
      (by decide +kernel), by decide +kernel⟩

end RedkeyOperator
