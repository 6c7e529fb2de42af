import RedkeyOperator.Lib.Pool
import RedkeyOperator.System.Isolation
import RedkeyOperator.System.Convergence

/-!
# Many clusters, many workers

The operator reconciles up to `MaxConcurrentReconciles` clusters at the same time, the same one never
twice at once. Their users edit them, and their Robins report on the configs, in between any two
requests, and any request may be lost.

To every cluster this looks as if the operator dealt with it alone (`pool_projects`): its objects
and its reconcile are where a run of the single-cluster system can get them. What holds in every
run of that system holds of every cluster in the pool; `pool_tracks` does this for the config of
the current generation.
-/

namespace RedkeyOperator

open Interleaved

/-! ## The system -/

/-- The number of workers. Values that are not positive fall back to the
default of one. -/
def controllerOptions (maxConcurrentReconciles : Int) : ℕ :=
  if maxConcurrentReconciles > 0 then maxConcurrentReconciles.toNat else 1

/-- The clusters of the operator, edited as `allowed` says. The same edits are
allowed to the users of all clusters. -/
def poolRuns (fill : Deployment → Deployment) (allowed : Redkey → RedkeySpec → Prop)
    (key : NamespacedName) : Sem Call Resp World :=
  trackedRuns fill key fun _ => allowed

/-- Every stored object belongs to the cluster it is named after. No user puts
objects of another cluster in the way. -/
def AllOwn (w : World) : Prop := ∀ key, w.store.Own key

/-- The worlds have the same objects of the cluster. About the others nothing
is said. -/
def SameCluster (key : NamespacedName) (w v : World) : Prop := w.store.Agree (.of key) v.store

variable {fill : Deployment → Deployment} {allowed : Redkey → RedkeySpec → Prop}
variable {key : NamespacedName} {w w' v : World} {c : Call} {r : Resp c}

/-! ## Requests -/

theorem SameCluster.configsOf_eq (h : SameCluster key w v) (hw : AllOwn w) (hv : AllOwn v) :
    w.configsOf key = v.configsOf key :=
  h.selected (hw key) (hv key)

/-- A request for the cluster is answered in the same way, and has the same
effect on it. -/
theorem exec_sameCluster (hc : c.IsFor key) (hw : AllOwn w) (hv : AllOwn v)
    (h : SameCluster key v w) (hexec : World.exec fill c w r w') :
    ∃ v', World.exec fill c v r v' ∧ SameCluster key v' w' := by
  obtain ⟨hanswers, -, -⟩ := hexec
  have hlocal : Local (serve fill) (Store.Own key) (Store.Agree (.of key)) (Call.IsFor key) :=
    local_serve
  -- the histories of the two worlds may differ
  suffices hstore : ∃ s, Store.answers fill c v.store r s ∧ s.Agree (.of key) w'.store by
    obtain ⟨s, hs, hagree⟩ := hstore
    exact ⟨⟨s, v.created ++ createdBy c r, v.applied⟩, ⟨hs, rfl, rfl⟩, hagree⟩
  cases c with
  | listConfigs ns label value site =>
      obtain ⟨rfl, rfl, rfl⟩ := hc
      obtain ⟨hsame, items, hperm, rfl⟩ := hanswers
      refine ⟨v.store, ⟨rfl, items, ?_, rfl⟩, hsame ▸ h⟩
      -- lists are in any order, so this answer may be given here as well
      rw [h.selected (hv key) (hw key)]
      exact hperm
  | _ =>
      have hsame := hlocal _ _ _ hc (hv key) (hw key) h
      have hserve : (r, w'.store) = serve fill _ w.store := hanswers
      obtain ⟨hr, hs⟩ := Prod.mk.inj hserve
      refine ⟨(serve fill _ v.store).2, ?_, hs ▸ hsame.2⟩
      exact Prod.ext (hr.trans hsame.1.symm) rfl

/-- It touches no other cluster. -/
theorem exec_touches (hfill : ∀ d, (fill d).metadata = d.metadata) (hc : c.IsFor key)
    (hw : AllOwn w) (hexec : World.exec fill c w r w') :
    OwnAnswer key c r ∧ w.store.Touches key w'.store := by
  obtain ⟨hown, hstore⟩ := ownAnswer_answers hc (hw key) hexec
  exact ⟨hown, hstore ▸ serve_touches hfill hc⟩

/-! ## The other parties -/

section Reports

variable {ρ : Region} {t : RedkeyConfig} {status : RedkeyConfigStatus}

/-- A report on a config, seen from a region. -/
theorem configsIn_robinWrite (s : Store) (k : NamespacedName) :
    (s.robinWrite k status).configsIn ρ = Configs.robinWrite (s.configsIn ρ) k status := by
  simp only [Store.configsIn, Store.robinWrite, Configs.robinWrite, List.filter_map]
  congr 1
  refine List.filter_congr fun d _ => ?_
  rw [Bool.eq_iff_iff]
  simp only [Function.comp_apply, decide_eq_true_eq]
  split <;> exact Iff.rfl

/-- A report does the same to both worlds. -/
theorem SameCluster.robinWrite (h : SameCluster key w v) (k : NamespacedName) :
    SameCluster key (w.robinWrite k status) (v.robinWrite k status) where
  redkeys := h.redkeys
  robin := h.robin
  configs := by
    change (w.store.robinWrite k status).configsIn _ = (v.store.robinWrite k status).configsIn _
    rw [configsIn_robinWrite, configsIn_robinWrite, h.configs]

/-- A report on a config outside the region cannot be seen from it. -/
theorem agree_robinWrite {s : Store} {k : NamespacedName} (hk : ¬ ρ.config k) :
    s.Agree ρ (s.robinWrite k status) where
  redkeys _ _ := rfl
  robin _ _ _ := rfl
  configs := by
    rw [configsIn_robinWrite, Configs.robinWrite, List.map_congr_left, List.map_id]
    intro c hc
    have hne : c.key ≠ k := fun heq => hk (heq ▸ (Store.mem_configsIn.mp hc).2)
    simp [hne]

theorem allOwn_robinWrite (hw : AllOwn w) (k : NamespacedName) :
    AllOwn (w.robinWrite k status) := by
  intro key
  refine ⟨(hw key).redkey, (hw key).robin, fun c hc hsel => ?_⟩
  obtain ⟨c₀, hc₀, hmeta, hspec, -⟩ := Configs.mem_robinWrite hc
  obtain ⟨n, hn, hkey⟩ := (hw key).configs c₀ hc₀ (selected_congr hmeta ▸ hsel)
  exact ⟨n, hspec ▸ hn, (RedkeyConfig.Same.key ⟨hmeta, hspec⟩).trans hkey⟩

end Reports

theorem allOwn_edit (hw : AllOwn w) {live : Redkey} (hlive : w.store.redkeys key = some live)
    (spec : RedkeySpec) : AllOwn (w.setRedkey key (live.edit spec)) := fun key' =>
  (Store.Touches.redkey hlive (Redkey.edit_key live spec)).own (hw key')

/-! ## Every cluster is on its own -/

/-- Requests and steps of others concern one cluster each: what they do
depends on that cluster and leaves the rest alone. -/
theorem separate (hfill : ∀ d, (fill d).metadata = d.metadata) :
    Separate (poolRuns fill allowed) AllOwn SameCluster OwnAnswer Call.IsFor where
  refl key w := (Store.agree_equivalence _).refl w.store
  trans key w v u h h' := (Store.agree_equivalence _).trans h h'
  answers := by
    rintro key c w r w' hc hw (⟨-, hexec⟩ | ⟨rfl, rfl | ⟨r₀, -, hexec⟩⟩)
    · obtain ⟨hown, htouches⟩ := exec_touches hfill hc hw hexec
      exact ⟨hown, fun key' => htouches.own (hw key')⟩
    · exact ⟨ownAnswer_lost c, hw⟩
    · exact ⟨ownAnswer_lost c, fun key' => (exec_touches hfill hc hw hexec).2.own (hw key')⟩
  exec_local := by
    rintro key c w r w' v hc hw hv h (⟨-, hexec⟩ | ⟨rfl, rfl | ⟨r₀, -, hexec⟩⟩)
    · obtain ⟨v', hexec', h'⟩ := exec_sameCluster hc hw hv h hexec
      exact ⟨v', Or.inl ⟨trivial, hexec'⟩, h'⟩
    · exact ⟨v, Or.inr ⟨rfl, Or.inl rfl⟩, h⟩
    · obtain ⟨v', hexec', h'⟩ := exec_sameCluster hc hw hv h hexec
      exact ⟨v', Or.inr ⟨rfl, Or.inr ⟨r₀, trivial, hexec'⟩⟩, h'⟩
  exec_frames := by
    rintro key key' c w r w' hne hc hw (⟨-, hexec⟩ | ⟨rfl, rfl | ⟨r₀, -, hexec⟩⟩)
    · exact (exec_touches hfill hc hw hexec).2.agree (region_of_avoids hne)
    · exact (Store.agree_equivalence _).refl _
    · exact (exec_touches hfill hc hw hexec).2.agree (region_of_avoids hne)
  env_inv := by
    rintro key w w' hw ⟨-, henv⟩
    cases henv with
    | userUpdate hlive _ => exact allOwn_edit hw hlive _
    | robinWrite _ _ => exact allOwn_robinWrite hw _
  env_local := by
    rintro key w w' v hw hv h ⟨-, henv⟩
    cases henv with
    -- => the edit is admitted by the spec that is stored, which is the same
    | @userUpdate live spec hlive hedit =>
        have hlive' : v.store.redkeys key = some live := (h.redkeys key rfl).trans hlive
        exact ⟨_, ⟨trivial, .userUpdate hlive' hedit⟩, h.setRedkey (live.edit spec)⟩
    | @robinWrite t status ht hreport =>
        rw [← h.configsOf_eq hv hw] at ht hreport
        exact ⟨_, ⟨trivial, .robinWrite ht hreport⟩, h.robinWrite t.key⟩
  env_frames := by
    rintro key key' w w' hne hw ⟨-, henv⟩
    have havoids := region_of_avoids hne
    cases henv with
    | @userUpdate live spec hlive _ =>
        exact (Store.Touches.redkey hlive (Redkey.edit_key live spec)).agree havoids
    | @robinWrite t status ht _ =>
        obtain ⟨hmem, hsel⟩ := mem_configsOf.mp ht
        -- a config with the label of a cluster has a name of it
        obtain ⟨n, -, hkey⟩ := (hw key').configs t hmem hsel
        exact agree_robinWrite (hkey ▸ havoids.config n)

/-- A positive `MaxConcurrentReconciles` bounds the reconciles that run at the
same time. -/
theorem pool_busy_le {maxConcurrentReconciles : ℕ} (hpos : 0 < maxConcurrentReconciles)
    {init : World → Prop} {m : Pool NamespacedName Call Resp (Except Err Result) World}
    (hm : Pool.Reachable (poolRuns fill allowed) Reconciles
      (controllerOptions maxConcurrentReconciles) init m) :
    m.busy.encard ≤ maxConcurrentReconciles := by
  have hworkers : controllerOptions maxConcurrentReconciles = maxConcurrentReconciles := by
    simp [controllerOptions, hpos]
  exact hworkers ▸ hm.busy_le

/-- The run of a single cluster behind a run of the pool, with the objects of
the others still named after them. -/
theorem pool_alone (hfill : ∀ d, (fill d).metadata = d.metadata) {workers : ℕ} {init : World → Prop}
    (hinit : ∀ w, init w → AllOwn w) {m : Pool NamespacedName Call Resp (Except Err Result) World}
    (hm : Pool.Reachable (poolRuns fill allowed) Reconciles workers init m) (key : NamespacedName) :
    AllOwn m.shared ∧ ∃ w, AllOwn w ∧ SameCluster key w m.shared ∧
      Reachable (poolRuns fill allowed key) (Reconciles key) init ⟨w, m.threads key⟩ := by
  have hentry : ∀ key p, Reconciles key p → p.Uses (OwnAnswer key) (Call.IsFor key) := by
    rintro key p ⟨r, now, rfl⟩
    exact reconcile_uses
  obtain ⟨hown, halone⟩ := (separate hfill).projects hentry hinit hm
  exact ⟨hown, (halone key).run⟩

/-- Every cluster of the pool could be dealt with alone: there is a run of the
single-cluster system, from the same start, that ends with the same objects of
the cluster and in the same place of its reconcile. -/
theorem pool_projects {fill : Deployment → Deployment} (hfill : ∀ d, (fill d).metadata = d.metadata)
    (allowed : Redkey → RedkeySpec → Prop) (maxConcurrentReconciles : Int) {init : World → Prop}
    (hinit : ∀ w, init w → AllOwn w) {m : Pool NamespacedName Call Resp (Except Err Result) World}
    (hm : Pool.Reachable (poolRuns fill allowed) Reconciles
      (controllerOptions maxConcurrentReconciles) init m) :
    ∀ key, ∃ w, SameCluster key w m.shared ∧
      Reachable (trackedRuns fill key fun _ => allowed) (Reconciles key) init
        ⟨w, m.threads key⟩ := by
  intro key
  obtain ⟨-, w, -, hsame, hrun⟩ := pool_alone hfill hinit hm key
  exact ⟨w, hsame, hrun⟩

/-- Any edit; a generation is a 64-bit number. -/
def AnyEdit (live : Redkey) (_ : RedkeySpec) : Prop := Decimal.InInt64 (live.generation + 1)

/-- Take a cluster that starts without configs, next to any others. Whenever
no reconcile of it is running and its status has observed the current
generation, its highest config is a snapshot of the current spec that Robin
has not skipped. -/
theorem pool_tracks {fill : Deployment → Deployment} (hfill : ∀ d, (fill d).metadata = d.metadata)
    (maxConcurrentReconciles : Int) {key : NamespacedName} {init : World → Prop}
    (hinit : ∀ w, init w → AllOwn w) (huntouched : ∀ w, init w → ∃ live, Untouched key live w)
    {m : Pool NamespacedName Call Resp (Except Err Result) World}
    (hm : Pool.Reachable (poolRuns fill AnyEdit) Reconciles
      (controllerOptions maxConcurrentReconciles) init m)
    (hidle : m.threads key = none) {live : Redkey} (hlive : m.shared.store.redkeys key = some live)
    (hpos : live.spec.primaries ≠ 0) (hobs : live.status.observedGeneration = live.generation) :
    ∃ c highest, c ∈ m.shared.configsOf key ∧
      (∀ d ∈ m.shared.configsOf key, d.spec.sequence ≤ c.spec.sequence) ∧
      c.Same (newConfig live highest) ∧ c.status.configPhase ≠ .superseded := by
  obtain ⟨hown, w, hw, hsame, hrun⟩ := pool_alone hfill hinit hm key
  -- the single-cluster system is idle as well
  rw [hidle] at hrun
  have hstart : ∀ w, init w → Tracking.Idle key (fun _ => True) w := by
    intro w hw
    obtain ⟨live, huntouched⟩ := huntouched w hw
    exact ⟨live, trivial, huntouched.tracks⟩
  obtain ⟨live', -, htracks⟩ := Tracking.reachable_idle keeps_edits hstart hrun
  obtain rfl : live' = live :=
    Option.some.inj (htracks.stored.symm.trans ((hsame.redkeys key rfl).trans hlive))
  obtain ⟨c, hc⟩ := htracks.headed hpos (Or.inl hobs)
  obtain ⟨highest, hsnapshot⟩ := htracks.snapshot c hc.mem hc.current
  rw [← hsame.configsOf_eq hw hown]
  exact ⟨c, highest, hc.mem, hc.highest, hsnapshot, hc.phase⟩

/-- Two new clusters. -/
def twoClusters : World where
  store := {
    redkeys := fun key =>
      if key = ⟨"cache", "a"⟩ then some { sampleCluster with name := "a" }
      else if key = ⟨"cache", "b"⟩ then some { sampleCluster with name := "b" }
      else none
    configs := []
    robin := fun _ _ => none }

theorem twoClusters_own : AllOwn twoClusters := by
  intro key
  refine ⟨fun live hlive => ?_, fun k obj hobj => (by cases hobj), fun c hc => (by cases hc)⟩
  simp only [twoClusters] at hlive
  split at hlive
  case isTrue hkey =>
    cases hlive
    exact hkey.symm
  case isFalse =>
    split at hlive
    case isTrue hkey =>
      cases hlive
      exact hkey.symm
    case isFalse => cases hlive

/-- Both of them are reconciled at once, one request at a time. -/
def takeTurns (n : ℕ) : Pool NamespacedName Call Resp (Except Err Result) World :=
  (List.replicate n [(⟨"cache", "a"⟩ : NamespacedName), ⟨"cache", "b"⟩]).flatten.foldl
    (Pool.turn fun _ c w => World.answer id (fun _ => false) c w)
    ⟨twoClusters, Function.update (Function.update (fun _ => none) ⟨"cache", "a"⟩
      (some (reconcile { resyncInterval := 60 } 1 ⟨"cache", "a"⟩))) ⟨"cache", "b"⟩
      (some (reconcile { resyncInterval := 60 } 2 ⟨"cache", "b"⟩))⟩

/-- Two reconciles start, then they take turns. -/
theorem takeTurns_reachable (n : ℕ) :
    Pool.Reachable (poolRuns id AnyEdit) Reconciles (controllerOptions 10) (· = twoClusters)
      (takeTurns n) := by
  have hstart : Pool.Reachable (poolRuns id AnyEdit) Reconciles (controllerOptions 10)
      (· = twoClusters) (⟨twoClusters, fun _ => none⟩ : Pool NamespacedName Call Resp _ World) :=
    ⟨twoClusters, rfl, Relation.ReflTransGen.refl⟩
  have hworkers : ∀ n : ℕ, n < 10 → (n : ℕ∞) < controllerOptions 10 :=
    fun n hn => Nat.cast_lt.mpr hn
  refine Pool.Reachable.turns ?_ ((hstart.start rfl ?_ ⟨_, _, rfl⟩).start rfl ?_ ⟨_, _, rfl⟩) _
  · exact fun key c w => Or.inl ⟨trivial, World.served_exec id c w⟩
  · rw [Pool.busy_idle, Set.encard_empty]
    exact hworkers 0 (by decide)
  · -- one worker is busy when the second reconcile starts
    refine lt_of_le_of_lt ?_ (hworkers 1 (by decide))
    have hone := Set.encard_singleton (⟨"cache", "a"⟩ : NamespacedName)
    refine (Set.encard_le_encard ?_).trans hone.le
    intro key hkey
    by_contra hne
    exact hkey (Function.update_of_ne hne _ _)

/-- In the middle of both reconciles. -/
theorem pool_projects_takeTurns :
    (takeTurns 8).threads ⟨"cache", "a"⟩ ≠ none ∧ (takeTurns 8).threads ⟨"cache", "b"⟩ ≠ none ∧
      ∀ key, ∃ w, SameCluster key w (takeTurns 8).shared ∧
        Reachable (trackedRuns id key fun _ => AnyEdit) (Reconciles key) (· = twoClusters)
          ⟨w, (takeTurns 8).threads key⟩ := by
  refine ⟨?_, ?_, ?_⟩
  · exact Option.isSome_iff_ne_none.mp (by decide +kernel)
  · exact Option.isSome_iff_ne_none.mp (by decide +kernel)
  · exact pool_projects (fun _ => rfl) AnyEdit 10 (fun w (hw : w = twoClusters) =>
      hw ▸ twoClusters_own) (takeTurns_reachable 8)

theorem twoClusters_untouched :
    Untouched ⟨"cache", "a"⟩ { sampleCluster with name := "a" } twoClusters where
  stored := by simp [twoClusters]
  formed := {
    keyed := (twoClusters_own _).redkey
    nodup := List.nodup_nil
    named := fun c hc => (by cases hc) }
  configs := rfl
  free c hc := by cases hc
  ranged := by decide
  observed := by decide

/-- When both are done. -/
theorem pool_tracks_takeTurns :
    ∃ live c highest, (takeTurns 40).shared.store.redkeys ⟨"cache", "a"⟩ = some live ∧
      c ∈ (takeTurns 40).shared.configsOf ⟨"cache", "a"⟩ ∧ c.Same (newConfig live highest) := by
  obtain ⟨live, hlive⟩ : ∃ live, (takeTurns 40).shared.store.redkeys ⟨"cache", "a"⟩ = some live :=
    Option.isSome_iff_exists.mp (by decide +kernel)
  have hstatus : ((takeTurns 40).shared.store.redkeys ⟨"cache", "a"⟩).map (fun live =>
      (live.spec.primaries, live.status.observedGeneration - live.generation)) = some (3, 0) := by
    decide +kernel
  rw [hlive, Option.map_some, Option.some.injEq, Prod.mk.injEq] at hstatus
  have hidle : (takeTurns 40).threads ⟨"cache", "a"⟩ = none :=
    Option.isNone_iff_eq_none.mp (by decide +kernel)
  obtain ⟨c, highest, hc, -, hsame, -⟩ := pool_tracks (fun _ => rfl) 10
    (fun w (hw : w = twoClusters) => hw ▸ twoClusters_own)
    (fun w (hw : w = twoClusters) => hw ▸ ⟨_, twoClusters_untouched⟩)
    (takeTurns_reachable 40) hidle hlive (by omega) (by omega)
  exact ⟨live, c, highest, hlive, hc, hsame⟩

end RedkeyOperator
