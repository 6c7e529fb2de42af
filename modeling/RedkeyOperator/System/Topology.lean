import RedkeyOperator.System.Record

/-!
# The recorded topology

An Applied config that no reconcile has seen when the user goes to zero is lost: a teardown leaves
another topology on record, or none (`teardown_without_record`).

Where a user goes to zero only once the cluster has settled on its spec, the topology of the highest
config with primaries that was Applied since the previous teardown is on record when a teardown is
completed (`teardown_on_record`), however the calls of the reconciles, the edits and Robin's reports
interleave.

Most of a reconcile is about the world alone, so its triples are proved there (`Topology.runs`) and
lifted; only a teardown looks at the epoch.
-/

namespace RedkeyOperator

open Interleaved Interleaved.Op

namespace Topology

variable {key : NamespacedName} {w w' : World} {fill : Deployment → Deployment}
variable {cluster live : Redkey} {L : List RedkeyConfig} {now : Time} {r : RedkeyReconciler}
variable {F : Redkey → World → Prop}

/-! ## Assertions -/

/-- The system as far as the world is concerned. Here calls may even be lost,
which the runs with epochs exclude. -/
abbrev runs (fill : Deployment → Deployment) (key : NamespacedName) : Sem Call Resp World :=
  freshRuns fill (World.Env key (AdmittedEdit (ZeroWhenSettled key)) TakesInTurn) fun _ _ _ => True

/-- Any call but the list of the configs that a teardown deletes, with which
the deletions of a teardown begin. -/
def Ordinary : Call → Prop
  | .listConfigs _ _ _ .deleteAllConfigs => False
  | _ => True

/-- The guarantee of the triples about the world: none of the calls belongs to
a teardown. -/
def Plain (c : Call) (_ : World) (_ : Resp c) (_ : World) : Prop := Ordinary c

/-- The invariant between two reconciles, about whichever Redkey is stored. -/
def Inv (key : NamespacedName) (w : World) : Prop := ∃ live, OnRecord key live w

/-- A reconcile is running, and has got as far as `F` says of the live Redkey
and the configs. -/
def Run (key : NamespacedName) (F : Redkey → World → Prop) (w : World) : Prop :=
  ∃ live, OnRecord key live w ∧ F live w

/-- The other parties keep `F`: admitted edits that wait for the cluster to
settle, and reports in sequence order. -/
structure Lasts (key : NamespacedName) (F : Redkey → World → Prop) : Prop where
  edit : ∀ live w spec, OnRecord key live w → AdmittedEdit (ZeroWhenSettled key) w live spec →
    F live w → F (live.edit spec) (w.setRedkey key (live.edit spec))
  robin : ∀ live w t status, OnRecord key live w → t ∈ w.configsOf key →
    InOrder (w.configsOf key) t status → F live w → F live (w.robinWrite t.key status)

/-- A triple about the world, with the invariant after errors. -/
abbrev RecordTriple {α : Type} (fill : Deployment → Deployment) (key : NamespacedName)
    (A : World → Prop) (p : Rec α) (Q : α → World → Prop) : Prop :=
  Triple (runs fill key) Plain (Inv key) A p Q

/-- The invariant holds at every point of a reconcile. -/
theorem Run.inv (h : Run key F w) : Inv key w := by
  obtain ⟨live, hw, -⟩ := h
  exact ⟨live, hw⟩

/-- What was known last may be replaced by what follows from it. -/
theorem Run.imp {F' : Redkey → World → Prop} (h : Run key F w)
    (himp : ∀ live, OnRecord key live w → F live w → F' live w) : Run key F' w := by
  obtain ⟨live, hw, hF⟩ := h
  exact ⟨live, hw, himp live hw hF⟩

/-- Users and Robin may take steps at any point of a reconcile. -/
theorem stable_run (hF : Lasts key F) : Stable (runs fill key) (Run key F) := by
  rintro w w' ⟨-, henv⟩ ⟨live, hw, hFw⟩
  cases henv with
  | @userUpdate live' spec hlive hedit =>
      obtain rfl : live' = live := Option.some.inj (hlive.symm.trans hw.stored)
      have hF' := hF.edit live' w spec hw hedit hFw
      exact ⟨_, hw.edit hedit, hF'⟩
  | @robinWrite t status ht hreport =>
      have hF' := hF.robin live w t status hw ht hreport.1 hFw
      exact ⟨live, hw.robinWrite ht hreport.1, hF'⟩

theorem lasts_true : Lasts key fun _ _ => True :=
  ⟨fun _ _ _ _ _ h => h, fun _ _ _ _ _ _ _ h => h⟩

theorem Lasts.and {F' : Redkey → World → Prop} (h : Lasts key F) (h' : Lasts key F') :
    Lasts key fun live w => F live w ∧ F' live w where
  edit live w spec hw hedit hF :=
    ⟨h.edit live w spec hw hedit hF.1, h'.edit live w spec hw hedit hF.2⟩
  robin live w t status hw ht hr hF :=
    ⟨h.robin live w t status hw ht hr hF.1, h'.robin live w t status hw ht hr hF.2⟩

/-- Users and Robin keep the invariant between reconciles as well. -/
theorem stable_inv : Stable (runs fill key) (Inv key) := by
  intro w w' hstep hw
  have hrun : Run key (fun _ _ => True) w := hw.imp fun _ h => ⟨h, trivial⟩
  exact (stable_run lasts_true w w' hstep hrun).inv

/-- The snapshot of the reconcile stays behind the live Redkey. -/
theorem lasts_started : Lasts key (StartedFrom key cluster) where
  edit _ _ _ _ hedit h := h.edit hedit
  robin _ _ _ _ hw ht _ h := h.robinWrite hw.formed ht

theorem lasts_shows : Lasts key fun _ w => Shows key L w where
  edit _ _ _ _ _ h := ⟨h.strict, h.complete, h.present⟩
  robin _ _ _ _ hw ht _ h := h.robinWrite hw.formed ht

/-- Robin leaves the terminal phases that were listed alone. -/
theorem lasts_phased : Lasts key fun _ w => Phased key L w where
  edit _ _ _ _ _ h := ⟨h.settled, h.zeroed⟩
  robin _ _ _ _ hw ht hr h := h.robinWrite hw.formed ht hr

theorem lasts_cleaning {rest : List RedkeyConfig} : Lasts key fun _ w => Cleaning key L rest w where
  edit _ _ _ _ _ h := ⟨h.strict, h.nodup, h.left, h.kept, ⟨h.phased.settled, h.phased.zeroed⟩⟩
  robin _ _ _ _ hw ht hr h := h.robinWrite hw.formed ht hr

/-- An edit of the spec is no edit of the record. -/
theorem lasts_rested : Lasts key (Rested key) where
  edit _ _ _ _ _ h := ⟨h.settled, h.best⟩
  robin _ _ _ _ hw ht hr h := h.robinWrite hw.formed ht hr

/-- Only the status writes of a reconcile change the record. -/
theorem lasts_sameRecord : Lasts key fun live _ => SameRecord cluster live :=
  ⟨fun _ _ _ _ _ h => h, fun _ _ _ _ _ _ _ h => h⟩

/-! ## Single steps of a reconcile -/

theorem quiet : Quiet (runs fill key) Plain := fresh_quiet fun _ _ _ => trivial

/-- Work on Robin's objects keeps what does not mention them. -/
theorem robin_triple {α : Type} {p : Rec α} (hF : Lasts key F)
    (hrobin : ∀ live w robin, F live w → F live (w.setRobin robin))
    (hp : p.Uses (KeyedReads fun _ => True) (Call.OnRobin fun _ => True)) :
    RecordTriple fill key (Run key F) p fun _ => Run key F := by
  refine fresh_robin_triple (stable_run hF) (fun _ hw => hw.inv) ?_ ?_ hp
  · rintro w robin ⟨live, hw, hFw⟩
    exact ⟨live, hw.setRobin robin, hrobin live w robin hFw⟩
  · -- none of these calls lists configs
    intro c _ _ _ hc _ _
    cases c with
    | listConfigs _ _ _ _ => cases hc
    | _ => trivial

/-- A list shows the store, and its phases. -/
theorem list_triple (hkey : cluster.key = key) (hF : Lasts key F) :
    RecordTriple fill key (Run key F) (listConfigs cluster) fun L =>
      Run key fun live w => F live w ∧ Shows key L w ∧ Phased key L w := by
  refine fresh_list_triple (stable_run hF) (fun _ hw => hw.inv) (fun _ _ _ => trivial) ?_
  intro w items hw hperm _
  rw [hkey] at hperm
  exact hw.imp fun live hw hF => ⟨hF, Shows.of_list hw.formed hperm, Phased.of_list hw hperm⟩

/-- A config of the reconcile's snapshot. With primaries it is needed, so the
user has not gone to zero since; without, everything is settled. -/
theorem create_triple
    (hneed : cluster.spec.primaries ≠ 0 → L = [] ∨ needsNewConfig cluster L.getLast? = true)
    (hF : Lasts key F)
    (hzero : cluster.spec.primaries = 0 → ∀ live w, F live w → Rested key live w) :
    RecordTriple fill key
      (Run key fun live w => (StartedFrom key cluster live w ∧ F live w) ∧ Shows key L w)
      (createNewConfig cluster L.getLast?) fun _ => Inv key := by
  refine fresh_create_triple quiet (stable_run ((lasts_started.and hF).and lasts_shows)) stable_inv
    (fun _ hw => hw.inv) (fun _ hw => hw) (fun _ _ _ _ _ => trivial) ?_ fun _ hw => hw.inv
  rintro w ⟨live, hw, ⟨hstarted, hFw⟩, hshows⟩ hnew
  -- a config with primaries is needed only as long as the user has some
  have hawake : cluster.spec.primaries ≠ 0 → live.spec.primaries ≠ 0 :=
    fun hpos => hstarted.primaries_ne_zero hw.formed hshows hpos (hneed hpos)
  -- and one without is created once everything is settled
  have hrested : cluster.spec.primaries = 0 → Rested key live w := fun h => hzero h live w hFw
  exact ⟨live, hw.addConfig hstarted.keyed hstarted.nonneg hstarted.ranged hstarted.before.1 hnew
    hshows.above hawake hrested⟩

/-- Cleanup goes through the list from below. `Cleaning` says what of the list
is left to delete. -/
theorem cleanup_triple :
    RecordTriple fill key (Run key fun _ w => Shows key L w ∧ Phased key L w)
      (cleanupSupersededConfigs L) fun res w =>
        (res.2 = none →
          ∃ L', res.1 = afterCleanup L' ∧ Run key (fun _ w => Cleaning key L' [] w) w) ∧
        (res.2 ≠ none → Inv key w) := by
  rw [cleanupSupersededConfigs_eq]
  refine (deleteSuperseded_rest_triple (J := Inv key)
    (A := fun rest => Run key fun _ w => Cleaning key L rest w) quiet
    (fun rest => stable_run lasts_cleaning) (superseded L) (afterCleanup L) ?_).mono ?_ ?_
  · intro c rest hrest w r w' hw hexec
    -- the config is gone, whether the call has deleted it or found it gone
    have hstep : Run key (fun _ w => Cleaning key L rest w) (w.eraseConfig c.key) := by
      obtain ⟨live, hw, hcleaning⟩ := hw
      obtain ⟨hw', hcleaning'⟩ := hcleaning.delete hrest hw
      exact ⟨live, hw', hcleaning'⟩
    refine ⟨trivial, ?_⟩
    rcases hexec with ⟨-, hexec⟩ | ⟨rfl, rfl | ⟨r₀, -, hexec⟩⟩
    · obtain ⟨rfl | rfl, rfl⟩ := exec_deleteConfig hexec
      · exact hstep
      · exact hstep
    · -- a lost call ends the loop
      exact hw.inv
    · obtain ⟨-, rfl⟩ := exec_deleteConfig hexec
      exact hstep.inv
  · exact fun w hw => hw.imp fun live hw h => Cleaning.start hw.formed h.1 h.2
  · rintro ⟨kept, err⟩ w ⟨hok, hfail⟩
    refine ⟨fun herr => ?_, hfail⟩
    obtain ⟨hkept, hw⟩ := hok herr
    exact ⟨L, hkept, hw⟩

/-! ### Status writes -/

/-- The status of an active config over the status of `latest`, whose record
is that of the live Redkey: the record changes only when the config is Applied
and has primaries. -/
theorem records_of_aggregate {g : Int} {latest stored : Redkey} {active : RedkeyConfig}
    (hlatest : SameRecord latest live)
    (hstored : live.writeStatus { latest with status := aggregatedStatus now g latest active } =
      .ok stored)
    (hactive : recordsTopology latest active = true → live.Records active) (b : RedkeyConfig) :
    stored.Records b ↔ live.Records b := by
  obtain ⟨-, rfl⟩ := Redkey.writeStatus_ok hstored
  unfold Redkey.Records at hactive ⊢
  -- the new status has the topology of the config or that of the old status
  by_cases hrecords : recordsTopology latest active = true
  · simp [aggregatedStatus, hrecords, (hactive hrecords).1, (hactive hrecords).2]
  · simp [aggregatedStatus, hrecords, hlatest.1, hlatest.2]

/-- An active config may be put on record: it is there already, or it is
stored and Applied, and below a config for zero no later one is. -/
def Recordable (key : NamespacedName) (live : Redkey) (w : World) (active : RedkeyConfig) : Prop :=
  active.status.configPhase = .applied → 0 < active.spec.primaries → live.Records active ∨
    ∃ a ∈ w.configsOf key, a.spec = active.spec ∧ a.status.configPhase = .applied ∧
      ∀ z ∈ w.configsOf key, z.spec.primaries = 0 → ∀ c ∈ w.configsOf key,
        c.spec.sequence < z.spec.sequence → 0 < c.spec.primaries →
        c.status.configPhase = .applied → c.spec.sequence ≤ a.spec.sequence

/-- The status of the active config keeps the invariant where the config may
be put on record. -/
theorem onRecord_of_aggregate {g : Int} {latest stored : Redkey} {active : RedkeyConfig}
    (h : OnRecord key live w) (hlatest : SameRecord latest live)
    (hstored : live.writeStatus { latest with status := aggregatedStatus now g latest active } =
      .ok stored)
    (hactive : Recordable key live w active) : OnRecord key stored (w.setRedkey key stored) := by
  have hkey : live.key = key := h.formed.keyed live h.stored
  have hstored' := hstored
  obtain ⟨-, rfl⟩ := Redkey.writeStatus_ok hstored
  by_cases hsame : recordsTopology latest active = true → live.Records active
  · -- the record stays as it is
    exact h.keepRecord hkey rfl rfl (records_of_aggregate hlatest hstored' hsame)
  · -- a topology that was not on record: the user has primaries, since nothing is settled
    rw [Classical.not_imp] at hsame
    obtain ⟨hrecords, hnew⟩ := hsame
    have happlied : active.status.configPhase = .applied ∧ 0 < active.spec.primaries := by
      simp only [recordsTopology, decide_eq_true_eq] at hrecords
      exact hrecords.2
    obtain ⟨a, ha, hspec, haapplied, hlast⟩ := (hactive happlied.1 happlied.2).resolve_left hnew
    have hpos : 0 < a.spec.primaries := hspec ▸ happlied.2
    -- were the user at zero, the topology would be on record already
    have hawake : live.spec.primaries ≠ 0 := by
      intro hzero
      have hrecord := ((h.asleep hzero).settled a ha hpos).2 haapplied
      unfold Redkey.Records at hrecord hnew
      exact hnew (hspec ▸ hrecord)
    refine h.record hkey rfl rfl hawake ha haapplied hpos hlast ⟨?_, ?_⟩
    · simp [aggregatedStatus, hrecords, hspec]
    · simp [aggregatedStatus, hrecords, hspec]

/-- `aggregateStatus` keeps the invariant where its active config may be put
on record. -/
theorem aggregate_triple (hkey : cluster.key = key) (hF : Lasts key F)
    (hactive : ∀ active, selectActiveConfig L = some active → ∀ live w, OnRecord key live w →
      F live w → Recordable key live w active)
    (hwrite : ∀ active, selectActiveConfig L = some active → ∀ live w (stored : Redkey),
      OnRecord key live w → F live w →
      ((active.status.configPhase = .applied → 0 < active.spec.primaries → live.Records active) →
        ∀ b, stored.Records b ↔ live.Records b) → F stored (w.setRedkey key stored)) :
    RecordTriple fill key (Run key F) (aggregateStatus now cluster L) fun _ => Inv key := by
  refine (fresh_aggregate_triple
    (Q := fun latest w => latest.key = key ∧ Run key (fun live w => F live w ∧
      SameRecord latest live) w) (stable_run hF) ?_ (fun _ hw => hw.inv) (fun _ _ _ => trivial)
    ?_ ?_).post fun _ w hw => hw.inv
  · intro latest w w' hstep hw
    exact ⟨hw.1, stable_run (hF.and lasts_sameRecord) w w' hstep hw.2⟩
  · -- the Redkey is read again, and has the record of the live one
    rintro w latest ⟨live, hw, hFw⟩ hlatest
    rw [hkey] at hlatest
    obtain rfl : latest = live := Option.some.inj (hlatest.symm.trans hw.stored)
    exact ⟨hw.formed.keyed latest hlatest, latest, hw, hFw, rfl, rfl⟩
  · rintro active hselected latest w resp w' hw hexec
    refine fresh_write_call (A := fun w => latest.key = key ∧ Run key (fun live w => F live w ∧
      SameRecord latest live) w) (B := Run key F) (G := Plain) (fun _ _ _ _ _ => trivial)
      (fun w hw => hw.2.imp fun _ _ h => h.1) ?_ w resp w' hw hexec
    rintro w live stored ⟨hlatest, live', hw, hFw, hsame⟩ hlive hstored
    -- the write goes to the key of the Redkey that was read again
    change w.store.redkeys latest.key = some live at hlive
    change Run key F (w.setRedkey latest.key stored)
    rw [hlatest] at hlive ⊢
    obtain rfl : live = live' := Option.some.inj (hlive.symm.trans hw.stored)
    have hw' : OnRecord key stored (w.setRedkey key stored) :=
      onRecord_of_aggregate hw hsame hstored (hactive active hselected live w hw hFw)
    refine ⟨stored, hw', hwrite active hselected live w stored hw hFw fun hrecord => ?_⟩
    refine records_of_aggregate hsame hstored fun hrecords => ?_
    simp only [recordsTopology, decide_eq_true_eq] at hrecords
    exact hrecord hrecords.2.1 hrecords.2.2

/-- The status write of a cluster that is down carries the record of its
snapshot over. -/
theorem scaledToZero_triple (hkey : cluster.key = key) :
    RecordTriple fill key (Run key fun live _ => SameRecord cluster live)
      (updateStatusScaledToZero now cluster) fun _ => Inv key := by
  refine api_triple (stable_run lasts_sameRecord) ?_
  intro w resp w' hw hexec
  have hw' : Inv key w' := by
    refine (fresh_write_call (G := Plain) (fun _ _ _ _ _ => trivial) (fun w hw => hw.inv) ?_
      w resp w' hw hexec).2
    rintro w live stored ⟨live', hw, hsame⟩ hlive hstored
    change w.store.redkeys cluster.key = some live at hlive
    change Inv key (w.setRedkey cluster.key stored)
    rw [hkey] at hlive ⊢
    obtain rfl : live = live' := Option.some.inj (hlive.symm.trans hw.stored)
    -- the record of the snapshot is that of the live Redkey
    obtain ⟨-, rfl⟩ := Redkey.writeStatus_ok hstored
    exact ⟨_, hw.keepRecord (hw.formed.keyed live hw.stored) rfl rfl fun b => hsame.iff b⟩
  exact ⟨trivial, outcome_const hw' hw'⟩

/-! ## A reconcile -/

/-- A reconcile with primaries. Only its last stage may change the record. -/
theorem reconcileConfigs_onRecord (hkey : cluster.key = key) (hpos : cluster.spec.primaries ≠ 0) :
    RecordTriple fill key (Run key (StartedFrom key cluster)) (reconcileConfigs r now cluster)
      fun _ => Inv key := by
  have hrobin : ∀ live w robin, StartedFrom key cluster live w →
      StartedFrom key cluster live (w.setRobin robin) := fun _ _ robin h => h.setRobin robin
  refine reconcileConfigs_triple
    (fun L => Run key fun live w => StartedFrom key cluster live w ∧ Shows key L w ∧ Phased key L w)
    (Inv key) (fun L => Run key fun _ w => Shows key L w ∧ Phased key L w)
    (fun kept w => ∃ L, kept = afterCleanup L ∧ Run key (fun _ w => Cleaning key L [] w) w)
    quiet stable_inv stable_inv (robin_triple lasts_started hrobin (ensureRBAC_uses trivial))
    (robin_triple lasts_started hrobin (ensureRobinDeployment_uses trivial))
    (list_triple hkey lasts_started) ?_ ?_ ?_ (fun w hw => hw.inv) (fun L _ => cleanup_triple) ?_
  · -- a config is created for the snapshot
    intro L hneed
    refine (create_triple (F := fun _ _ => True) (fun _ => hneed) lasts_true
      fun hzero => absurd hzero hpos).pre ?_
    exact fun w hw => hw.imp fun live _ h => ⟨⟨h.1, trivial⟩, h.2.1⟩
  · -- the list is read again after the create
    refine (list_triple hkey lasts_true).mono ?_ fun L w hw => hw.imp fun live _ h => h.2
    exact fun w hw => hw.imp fun _ h => ⟨h, trivial⟩
  · exact fun L w _ _ hw => hw.imp fun live _ h => h.2
  · rintro kept w ⟨L, rfl, hw⟩
    -- the active config is the lowest one that cleanup left, so no later one was Applied
    refine aggregate_triple hkey lasts_cleaning ?_ ?_ w hw
    · exact fun active hactive live w _ h happlied _ => Or.inr (h.newest hactive happlied)
    · intro _ _ live w stored _ h _
      exact ⟨h.strict, h.nodup, h.left, h.kept, h.phased.settled, h.phased.zeroed⟩

/-- Where a reconcile without primaries starts: the user has gone to zero, so
everything is settled, and stays so whatever the user does next. -/
def Resting (key : NamespacedName) (cluster live : Redkey) (w : World) : Prop :=
  Rested key live w ∧ SameRecord cluster live

/-- Neither edits nor reports change what is settled. -/
theorem lasts_resting : Lasts key (Resting key cluster) := lasts_rested.and lasts_sameRecord

/-- What is known of such a reconcile once it has its list. -/
def ZeroListed (key : NamespacedName) (cluster : Redkey) (L : List RedkeyConfig) : World → Prop :=
  Run key fun live w => (StartedFrom key cluster live w ∧ Resting key cluster live w) ∧
    Shows key L w ∧ Phased key L w

/-- What is known after the list, part by part. -/
theorem lasts_zeroListed : Lasts key fun live w =>
    (StartedFrom key cluster live w ∧ Resting key cluster live w) ∧
      Shows key L w ∧ Phased key L w :=
  (lasts_started.and lasts_resting).and (lasts_shows.and lasts_phased)

/-- Robin's objects are mentioned in none of it. -/
theorem zeroListed_robin {α : Type} {p : Rec α}
    (hp : p.Uses (KeyedReads fun _ => True) (Call.OnRobin fun _ => True)) :
    RecordTriple fill key (ZeroListed key cluster L) p fun _ => ZeroListed key cluster L := by
  refine robin_triple lasts_zeroListed ?_ hp
  rintro live w robin ⟨⟨hstarted, hrested, hsame⟩, hshows, hphased⟩
  exact ⟨⟨hstarted.setRobin robin, ⟨hrested.settled, hrested.best⟩, hsame⟩,
    ⟨hshows.strict, hshows.complete, hshows.present⟩, hphased.settled, hphased.zeroed⟩

/-- The list with which the scale-to-zero path starts. -/
theorem zero_list (hkey : cluster.key = key) :
    RecordTriple fill key
      (Run key fun live w => StartedFrom key cluster live w ∧ Resting key cluster live w)
      (listConfigs cluster) fun L => ZeroListed key cluster L :=
  list_triple hkey (lasts_started.and lasts_resting)

/-- The branch that asks Robin to scale down. -/
theorem zero_create {c : RedkeyConfig} (hzero : cluster.spec.primaries = 0)
    (hlast : L.getLast? = some c) :
    RecordTriple fill key (ZeroListed key cluster L) (do
      ensureRBAC cluster
      ensureRobinDeployment cluster
      createNewConfig cluster (some c)) fun _ => Inv key := by
  refine Triple.bind (zeroListed_robin (ensureRBAC_uses trivial)) fun _ => ?_
  refine Triple.bind (zeroListed_robin (ensureRobinDeployment_uses trivial)) fun _ => ?_
  rw [← hlast]
  refine (create_triple (F := Resting key cluster) (fun hpos => absurd hzero hpos) lasts_resting
    fun _ _ _ h => h.1).pre ?_
  exact fun w hw => hw.imp fun live _ h => ⟨h.1, h.2.1⟩

/-- The branch that waits for Robin: what is Applied is settled, so its status
write records what is on record. -/
theorem zero_wait (hkey : cluster.key = key) :
    RecordTriple fill key (ZeroListed key cluster L) (do
      ensureRBAC cluster
      ensureRobinDeployment cluster
      aggregateStatus now cluster L) fun _ => Inv key := by
  refine Triple.bind (zeroListed_robin (ensureRBAC_uses trivial)) fun _ => ?_
  refine Triple.bind (zeroListed_robin (ensureRobinDeployment_uses trivial)) fun _ => ?_
  -- a config that was listed as Applied is Applied still
  have hrecords : ∀ active, selectActiveConfig L = some active → ∀ live w,
      Rested key live w ∧ Shows key L w ∧ Phased key L w →
      active.status.configPhase = .applied → 0 < active.spec.primaries → live.Records active := by
    rintro active hactive live w ⟨hrested, hshows, hphased⟩ happlied hpos
    have hmem : active ∈ L := (selectActiveConfig_cases hactive).1
    obtain ⟨a, ha, hsame⟩ := hshows.present active hmem
    have haapplied : a.status.configPhase = .applied := by
      rw [hphased.settled active hmem a ha (by rw [hsame.2])
        (by simp [isTerminalConfigPhase, happlied]), happlied]
    have hrecord := (hrested.settled a ha (hsame.2 ▸ hpos)).2 haapplied
    unfold Redkey.Records at hrecord ⊢
    rw [hsame.2]
    exact hrecord
  refine (aggregate_triple (F := fun live w => Rested key live w ∧ Shows key L w ∧ Phased key L w)
    hkey (lasts_rested.and (lasts_shows.and lasts_phased)) ?_ ?_).pre ?_
  · exact fun active hactive live w _ h happlied hpos =>
      Or.inl (hrecords active hactive live w h happlied hpos)
  · intro active hactive live w stored _ h hsame
    obtain ⟨hrested, hshows, hphased⟩ := h
    have hrested' :=
      hrested.congr (hsame (hrecords active hactive live w ⟨hrested, hshows, hphased⟩))
    exact ⟨⟨hrested'.settled, hrested'.best⟩,
      ⟨hshows.strict, hshows.complete, hshows.present⟩, hphased.settled, hphased.zeroed⟩
  · exact fun w hw => hw.imp fun live _ h => ⟨h.1.2.1, h.2⟩

/-! ## Epochs -/

/-- What a call of a run guarantees: when the status write of a teardown is
accepted, no config is left, and the best one that was Applied is on
record. -/
def Torn (key : NamespacedName) : (c : Call) → Epoch → Resp c → Epoch → Prop
  | .updateRedkeyStatus _, e, .ok stored, e' => e.deleting = true →
      e'.world.configsOf key = [] ∧ e'.world.store.redkeys key = some stored ∧
        ∀ b, Best e.world.applied b → Redkey.Records stored b
  | _, _, _, _ => True

/-- A triple of the system, with the invariant after errors. -/
abbrev EpochTriple {α : Type} (fill : Deployment → Deployment) (key : NamespacedName)
    (A : Epoch → Prop) (p : Rec α) (Q : α → Epoch → Prop) : Prop :=
  Triple (topologyRuns fill key (ZeroWhenSettled key)) (Torn key) (fun e => Inv key e.world) A p Q

/-- Outside a teardown an epoch is its world. The epoch ends with the status
write of a teardown, which forgets what was Applied before. -/
def Calm (A : World → Prop) (e : Epoch) : Prop := A e.world ∧ e.deleting = false

/-- Outside a teardown a call does not end an epoch. -/
theorem after_calm {c : Call} (resp : Resp c) : (Epoch.after false w c resp).world = w := by
  unfold Epoch.after
  split <;> rfl

/-- An ordinary call does not begin a teardown. -/
theorem after_ordinary {c : Call} (hc : Ordinary c) (resp : Resp c) :
    (Epoch.after false w c resp).deleting = false := by
  unfold Epoch.after
  split
  · rfl
  · cases hc
  · rfl
  · rfl

/-- There is nothing to guarantee outside a teardown. -/
theorem torn_of_calm {c : Call} {e e' : Epoch} {resp : Resp c} (he : e.deleting = false) :
    Torn key c e resp e' := by
  unfold Torn
  split
  · intro hdeleting
    rw [he] at hdeleting
    cases hdeleting
  · trivial

/-- What is proved about the world holds in the system, as long as no teardown
has begun. -/
theorem lift {α : Type} {p : Rec α} {A : World → Prop} {Q : α → World → Prop}
    (h : RecordTriple fill key A p Q) : EpochTriple fill key (Calm A) p fun a => Calm (Q a) := by
  refine (Triple.lift (N := runs fill key) (f := Epoch.world) (K := fun e => e.deleting = false)
    ?_ ?_ ?_ h).error fun _ he => he.1
  · rintro e e' he ⟨-, henv, hdeleting⟩
    exact ⟨⟨trivial, henv⟩, hdeleting.trans he⟩
  · rintro c e resp e' he ⟨-, w, hexec, rfl⟩
    rw [he, after_calm]
    -- a call that is answered is one of the calls of `runs`
    exact Or.inl ⟨trivial, hexec⟩
  · rintro c e resp e' he ⟨-, w, -, rfl⟩ hplain
    refine ⟨?_, torn_of_calm he⟩
    rw [he]
    exact after_ordinary hplain resp

/-! ### The teardown -/

/-- A teardown deletes the configs: those of `rest` are left, all of them
settled, and the Redkey still has the record with which the reconcile
started. -/
structure Tearing (key : NamespacedName) (cluster : Redkey) (rest : List RedkeyConfig)
    (e : Epoch) : Prop where
  deleting : e.deleting = true
  formed : e.world.Formed key
  left : ∀ c ∈ e.world.configsOf key, ∃ d ∈ rest, c.key = d.key
  live : ∃ live, e.world.store.redkeys key = some live ∧ live.spec.ephemeral = false ∧
    0 ≤ live.spec.primaries ∧ Decimal.InInt64 live.generation ∧ Resting key cluster live e.world

/-- The other parties neither begin nor end a teardown. -/
theorem stable_calm {A : World → Prop} (hA : Stable (runs fill key) A) :
    Stable (topologyRuns fill key (ZeroWhenSettled key)) (Calm A) := by
  rintro e e' ⟨-, henv, hdeleting⟩ ⟨he, hcalm⟩
  exact ⟨hA _ _ ⟨trivial, henv⟩ he, hdeleting.trans hcalm⟩

/-- Edits and reports in the middle of the deletions. -/
theorem stable_tearing {rest : List RedkeyConfig} :
    Stable (topologyRuns fill key (ZeroWhenSettled key)) (Tearing key cluster rest) := by
  rintro ⟨w, deleting⟩ ⟨w', deleting'⟩ ⟨-, henv, hdeleting⟩ h
  have hstill : deleting' = true := hdeleting.trans h.deleting
  have hformed : w.Formed key := h.formed
  obtain ⟨live, hlive, hpersistent, hprimaries, hranged, hrested, hsame⟩ := h.live
  change World.Env key _ _ w w' at henv
  cases henv with
  | @userUpdate live' spec hlive' hedit =>
      obtain rfl : live' = live := Option.some.inj (hlive'.symm.trans hlive)
      obtain ⟨hephemeral, hnonneg⟩ := hedit.spec
      have hformed' : (w.setRedkey key (live'.edit spec)).Formed key :=
        hformed.setRedkey (hformed.keyed live' hlive)
      have hstored := Store.setRedkey_redkeys_self w.store key (live'.edit spec)
      -- what is on record is part of the status
      have hresting : Resting key cluster (live'.edit spec) (w.setRedkey key (live'.edit spec)) :=
        ⟨⟨hrested.settled, hrested.best⟩, hsame⟩
      exact ⟨hstill, hformed', h.left, live'.edit spec, hstored, hephemeral.trans hpersistent,
        hnonneg, hedit.2.1, hresting⟩
  | @robinWrite t status ht hreport =>
      have hformed' := hformed.robinWrite t.key status
      have hresting : Resting key cluster live (w.robinWrite t.key status) :=
        ⟨hrested.robinWrite hformed ht hreport.1, hsame⟩
      refine ⟨hstill, hformed', ?_, live, hlive, hpersistent, hprimaries, hranged, hresting⟩
      intro c hc
      obtain ⟨c₀, hc₀, hmeta, hspec, -⟩ := hformed.mem_robinWrite ht hc
      obtain ⟨d, hd, hkey⟩ := h.left c₀ hc₀
      exact ⟨d, hd, (RedkeyConfig.Same.key ⟨hmeta, hspec⟩).trans hkey⟩

theorem Tearing.erase {c : RedkeyConfig} {rest : List RedkeyConfig} {e : Epoch}
    (h : Tearing key cluster (c :: rest) e) :
    Tearing key cluster rest ⟨e.world.eraseConfig c.key, true⟩ := by
  refine ⟨rfl, h.formed.eraseConfig c.key, ?_, ?_⟩
  · intro d hd
    obtain ⟨hd, hne⟩ := mem_configsOf_eraseConfig.mp hd
    obtain ⟨d', hd', hkey⟩ := h.left d hd
    rcases List.mem_cons.mp hd' with rfl | hrest
    · exact absurd hkey hne
    · exact ⟨d', hrest, hkey⟩
  · obtain ⟨live, hlive, hpersistent, hprimaries, hranged, hrested, hsame⟩ := h.live
    exact ⟨live, hlive, hpersistent, hprimaries, hranged, hrested.eraseConfig c.key, hsame⟩

/-- The configs are listed once more, and deleted one after another. With this
list the teardown begins. -/
theorem deleteAll_triple (hkey : cluster.key = key) :
    EpochTriple fill key (Calm (Run key (Resting key cluster))) (deleteAllConfigs cluster)
      fun _ => Tearing key cluster [] := by
  refine Triple.bind (Q := fun resp e => ∃ items, resp = .ok items ∧ Tearing key cluster items e)
    (Triple.request (stable_calm (stable_run lasts_resting)) ?_) ?_
  · rintro e resp e' ⟨⟨live, hw, hresting⟩, -⟩ ⟨-, w, hexec, rfl⟩
    obtain ⟨⟨items, hperm, rfl⟩, rfl⟩ := exec_listConfigs hexec
    subst hkey
    have hleft : ∀ c ∈ e.world.configsOf cluster.key, ∃ d ∈ items, c.key = d.key :=
      fun c hc => ⟨c, hperm.mem_iff.mpr hc, rfl⟩
    exact ⟨trivial, items, rfl, rfl, hw.formed, hleft, live, hw.stored, hw.persistent,
      hw.primaries, hw.ranged, hresting⟩
  · intro resp
    match resp with
    | .error e =>
        -- lists are answered in these runs
        rintro _ ⟨items, h, -⟩
        cases h
    | .ok items =>
        refine (deleteConfigs_triple (A := fun rest => Tearing key cluster rest)
          (fun rest => stable_tearing) items ?_).pre ?_
        · -- a config that is gone already is no failure
          rintro c rest - e resp e' he ⟨-, w, hexec, rfl⟩
          obtain ⟨hresp, rfl⟩ := exec_deleteConfig hexec
          have hstep := he.erase
          rw [he.deleting]
          rcases hresp with rfl | rfl
          · exact ⟨trivial, hstep⟩
          · exact ⟨trivial, hstep⟩
        · rintro e ⟨items', heq, he⟩
          cases heq
          exact he

/-- After the status write of a teardown everything starts again. -/
theorem Tearing.unapplied {e : Epoch} (h : Tearing key cluster [] e) {stored : Redkey}
    (hlive : e.world.store.redkeys key = some live) (hkey : stored.key = key)
    (hspec : stored.spec = live.spec) (hgen : stored.generation = live.generation) :
    Unapplied key ⟨{ e.world.setRedkey key stored with applied := [] }, false⟩ := by
  obtain ⟨live', hlive', hpersistent, hprimaries, hranged, -⟩ := h.live
  obtain rfl : live' = live := Option.some.inj (hlive'.symm.trans hlive)
  have hformed : (e.world.setRedkey key stored).Formed key := h.formed.setRedkey hkey
  refine ⟨⟨hformed.keyed, hformed.nodup, hformed.named⟩, ⟨stored, ?_, ?_, ?_, ?_⟩, ?_, rfl⟩
  · exact Store.setRedkey_redkeys_self _ _ _
  · rw [hspec, hpersistent]
  · rwa [hspec]
  · rwa [hgen]
  · refine List.eq_nil_iff_forall_not_mem.mpr fun c hc => ?_
    obtain ⟨d, hd, -⟩ := h.left c hc
    cases hd

/-- The status write that completes the teardown. It is accepted in these
runs, so the record of the snapshot becomes the record of the Redkey. -/
theorem completed_triple (hkey : cluster.key = key) :
    EpochTriple fill key (Tearing key cluster []) (updateStatusScaledToZero now cluster)
      fun _ e => Inv key e.world := by
  refine api_triple stable_tearing ?_
  rintro e resp e' he ⟨haccepted, w, hexec, rfl⟩
  obtain ⟨stored, rfl⟩ := haccepted he.deleting
  obtain ⟨live, hlive, -, -, -, hrested, hsame⟩ := he.live
  rcases exec_updateRedkeyStatus hexec with ⟨live', stored', hlive', hstored, hresp, rfl⟩ |
    ⟨⟨_, hresp⟩, -⟩
  -- the other case is a refusal
  swap
  · cases hresp
  cases hresp
  change e.world.store.redkeys cluster.key = some live' at hlive'
  rw [hkey] at hlive'
  obtain rfl : live' = live := Option.some.inj (hlive'.symm.trans hlive)
  obtain ⟨-, hstatus⟩ := Redkey.writeStatus_ok hstored
  have hdown : Unapplied key ⟨{ e.world.setRedkey key stored with applied := [] }, false⟩ := by
    have hlivekey := he.formed.keyed live' hlive
    refine he.unapplied hlive ?_ ?_ ?_
    · rw [hstatus]
      exact hlivekey
    · rw [hstatus]
    · rw [hstatus]
  -- the write carries the record of the snapshot over, and that is the live one
  have hrecords : ∀ b, Best e.world.applied b → stored.Records b := by
    intro b hb
    rw [hstatus]
    exact (hsame.iff b).mpr (hrested.best b hb)
  rw [he.deleting]
  subst hkey
  have hlive' := Store.setRedkey_redkeys_self e.world.store cluster.key stored
  exact ⟨fun _ => ⟨hdown.configs, hlive', hrecords⟩, OnRecord.init hdown⟩

theorem teardown_triple (hkey : cluster.key = key) :
    EpochTriple fill key (Calm (ZeroListed key cluster L)) (do
      deleteRobinDeployment cluster
      deleteRBAC cluster
      deleteAllConfigs cluster
      updateStatusScaledToZero now cluster) fun _ e => Inv key e.world := by
  refine Triple.bind (lift (zeroListed_robin (deleteRobinDeployment_uses trivial))) fun _ => ?_
  refine Triple.bind (lift (zeroListed_robin (deleteRBAC_uses trivial))) fun _ => ?_
  refine Triple.bind ((deleteAll_triple hkey).pre ?_) fun _ => completed_triple hkey
  exact fun e he => ⟨he.1.imp fun live _ h => h.1.2, he.2⟩

/-! ### Whole runs -/

/-- A reconcile without primaries, by its four cases. -/
theorem reconcileScaleToZero_onRecord (hkey : cluster.key = key)
    (hzero : cluster.spec.primaries = 0) :
    EpochTriple fill key
      (Calm (Run key fun live w => StartedFrom key cluster live w ∧ Resting key cluster live w))
      (reconcileScaleToZero r now cluster) fun _ e => Inv key e.world := by
  refine reconcileScaleToZero_triple (fun L => Calm (ZeroListed key cluster L))
    (lift (zero_list hkey)) ?_ ?_ (fun L c _ _ _ => teardown_triple hkey) ?_
  · -- there is no config left
    refine (lift (scaledToZero_triple hkey)).mono ?_ fun _ e he => he.1
    exact fun e he => ⟨he.1.imp fun live _ h => h.1.2.2, he.2⟩
  · exact fun L c hlast _ => (lift (zero_create hzero hlast)).post fun _ e he => he.1
  · exact fun L c _ _ _ => (lift (zero_wait hkey)).post fun _ e he => he.1

/-- The other parties keep the invariant in an epoch as well. -/
theorem stable_epoch :
    Stable (topologyRuns fill key (ZeroWhenSettled key)) fun e => Inv key e.world := by
  intro e e' hstep he
  have hstable : Stable (runs fill key) (Inv key) := stable_inv
  exact hstable e.world e'.world ⟨trivial, hstep.2.1⟩ he

theorem quiet_epoch : Quiet (topologyRuns fill key (ZeroWhenSettled key)) (Torn key) where
  state event e resp e' := by
    rintro ⟨-, w, hexec, rfl⟩
    rw [exec_metric hexec]
    rfl
  free _ _ _ := trivial

/-- A reconcile keeps the invariant, and its teardown guarantees what is on
record. -/
theorem reconcile_onRecord :
    EpochTriple fill key (fun e => Inv key e.world) (reconcile r now key) fun _ e =>
      Inv key e.world := by
  refine reconcile_triple (fun cluster e => cluster.key = key ∧
    Calm (Run key fun live w => StartedFrom key cluster live w ∧
      (cluster.spec.primaries = 0 → Resting key cluster live w)) e)
    quiet_epoch stable_epoch stable_epoch stable_epoch ?_ ?_ ?_
  · rintro e resp e' ⟨live, hw⟩ ⟨-, w, hexec, rfl⟩
    -- the snapshot is the live Redkey at this moment
    obtain ⟨rfl, rfl⟩ := exec_getRedkey hexec
    rw [find_eq_ok.mpr hw.stored]
    have hkey : live.key = key := hw.formed.keyed live hw.stored
    have hresting : live.spec.primaries = 0 → Resting key live live e.world :=
      fun hzero => ⟨hw.asleep hzero, rfl, rfl⟩
    exact ⟨trivial, hkey, ⟨live, hw, StartedFrom.start hw, hresting⟩, rfl⟩
  · rintro cluster hzero e ⟨hkey, hrun, hcalm⟩
    refine reconcileScaleToZero_onRecord hkey hzero e ⟨?_, hcalm⟩
    exact hrun.imp fun live _ h => ⟨h.1, h.2 hzero⟩
  · rintro cluster hpos e ⟨hkey, hrun, hcalm⟩
    refine ((lift (reconcileConfigs_onRecord hkey hpos)).post fun _ e he => he.1) e ⟨?_, hcalm⟩
    exact hrun.imp fun live _ h => h.1

end Topology

/-! ## Every run -/

/-- Whenever the status write of a teardown is accepted, in a run in which
users go to zero only once the cluster has settled on its spec and do not edit
a Redkey that is being torn down, no config is left, and the topology of the
highest config with primaries that Robin marked Applied since the previous
teardown is on record. -/
theorem teardown_on_record (fill : Deployment → Deployment) (key : NamespacedName) {e e' : Epoch}
    {written stored : Redkey} {k : Resp (.updateRedkeyStatus written) → Rec Result}
    (hm : Reachable (topologyRuns fill key (ZeroWhenSettled key)) (Reconciles key) (Unapplied key)
      ⟨e, some (.call (.updateRedkeyStatus written) k)⟩)
    (hteardown : e.deleting = true)
    (hwrite : (topologyRuns fill key (ZeroWhenSettled key)).exec (.updateRedkeyStatus written) e
      (.ok stored) e') :
    e'.world.configsOf key = [] ∧ e'.world.store.redkeys key = some stored ∧
      ∀ b, Best e.world.applied b → stored.Records b := by
  have hinit : ∀ e, Unapplied key e → Topology.Inv key e.world := fun _ h => OnRecord.init h
  have htorn : Topology.Torn key (.updateRedkeyStatus written) e (.ok stored) e' := by
    refine reachable_call (I := fun e => Topology.Inv key e.world)
      (Q := fun _ e => Topology.Inv key e.world) hinit Topology.stable_epoch
      (fun _ => Topology.stable_epoch) (fun _ _ h => h) ?_ hm hwrite
    -- every reconcile of the run starts from the invariant
    rintro p ⟨settings, now, rfl⟩ e he
    exact Topology.reconcile_onRecord.entry he
  exact htorn hteardown

/-! ### Two runs -/

instance (configs : List RedkeyConfig) (c : RedkeyConfig) (status : RedkeyConfigStatus) :
    Decidable (TakesInTurn configs c status) :=
  inferInstanceAs (Decidable (((_ → _) ∧ (_ → ∀ d ∈ configs, _ → _)) ∧
    (_ → _ ∨ ∃ d ∈ configs, _) ∧ (_ → ∀ d ∈ configs, _ → _) ∧ (_ → _ ∨ _)))

instance (live : Redkey) (c : RedkeyConfig) : Decidable (live.Records c) :=
  inferInstanceAs (Decidable (_ ∧ _))

instance (live : Redkey) (c : RedkeyConfig) : Decidable (live.Settles c) :=
  inferInstanceAs (Decidable (_ → _ ∧ (_ → live.Records c)))

instance (key : NamespacedName) (w : World) (live : Redkey) (spec : RedkeySpec) :
    Decidable (ZeroWhenSettled key w live spec) :=
  inferInstanceAs (Decidable (_ → _ → (∀ c ∈ w.configsOf key, live.Settles c) ∧
    ∃ c ∈ w.configsOf key, _ ∧ ∀ d ∈ w.configsOf key, _))

instance (ok : World → Redkey → RedkeySpec → Prop) [∀ w live spec, Decidable (ok w live spec)]
    (w : World) (live : Redkey) (spec : RedkeySpec) : Decidable (AdmittedEdit ok w live spec) :=
  inferInstanceAs (Decidable (_ ∧ (_ ∧ _) ∧ ok w live spec))

namespace Epoch

/-- The answer of a server that is there. -/
def answer (c : Call) (e : Epoch) : Resp c × Epoch :=
  ((e.world.served id c).1, .after e.deleting (e.world.served id c).2 c (e.world.served id c).1)

/-- The status write of a teardown is accepted. -/
def accepts : Call → Epoch → Bool
  | .updateRedkeyStatus cluster, e => !e.deleting ||
      (e.world.store.redkeys cluster.key).any fun live =>
        live.resourceVersion = cluster.resourceVersion
  | _, _ => true

/-- A reconcile of the cluster, up to its `n`-th call. -/
def reconciling (n : ℕ) (e : Epoch) : Machine Call Resp (Except Err Result) Epoch :=
  Machine.advance answer n ⟨e, some (reconcile { resyncInterval := 60 } 7 persistentCluster.key)⟩

/-- The user edits the spec of the cluster. -/
def edited (spec : RedkeySpec) (e : Epoch) : Epoch :=
  { e with world := e.world.edited persistentCluster.key spec }

/-- Robin takes up the config with the sequence and brings it to Applied. -/
def applying (sequence : Int) (e : Epoch) : Epoch :=
  { e with
    world := (e.world.reported persistentCluster.key sequence
      { configPhase := .inProgress }).reported persistentCluster.key sequence
      { configPhase := .applied } }

variable {ok : World → Redkey → RedkeySpec → Prop} {key : NamespacedName}

/-- What the server answers is a step of the system, where a teardown's write
is accepted. -/
theorem answer_exec (c : Call) (e : Epoch) (h : accepts c e = true) :
    (topologyRuns id key ok).exec c e (answer c e).1 (answer c e).2 := by
  refine ⟨?_, _, World.served_exec id c e.world, rfl⟩
  cases c with
  | updateRedkeyStatus cluster =>
      intro hdeleting
      rw [accepts, hdeleting, Bool.not_true, Bool.false_or, Option.any_eq_true] at h
      obtain ⟨live, hlive, hversion⟩ := h
      obtain ⟨stored, hstored⟩ : ∃ stored, live.writeStatus cluster = .ok stored :=
        ⟨_, if_pos (of_decide_eq_true hversion)⟩
      refine ⟨stored, ?_⟩
      simp only [answer, World.served, serve, hlive, hstored]
  | _ => trivial

/-- The runs of this section. -/
abbrev Reached (ok : World → Redkey → RedkeySpec → Prop)
    (m : Machine Call Resp (Except Err Result) Epoch) : Prop :=
  Reachable (topologyRuns id persistentCluster.key ok) (Reconciles persistentCluster.key)
    (Unapplied persistentCluster.key) m

theorem Reached.calls {m : Machine Call Resp (Except Err Result) Epoch} (hm : Reached ok m) (n : ℕ)
    (hp : m.checks answer accepts n = true) : Reached ok (m.advance answer n) :=
  hm.advance accepts (fun c e h => answer_exec c e h) n (Machine.checks_thread hp)

theorem Reached.reconcile {e : Epoch} (hm : Reached ok ⟨e, none⟩)
    (hp : (RedkeyOperator.reconcile { resyncInterval := 60 } 7 persistentCluster.key).checks answer
      accepts 40 e = true) (hdone : (e.reconciling 40).done = true) :
    Reached ok ⟨(e.reconciling 40).shared, none⟩ :=
  (Reached.calls (hm.start ⟨_, _, rfl⟩) 40 hp).finish hdone

theorem Reached.edit [∀ w live spec, Decidable (ok w live spec)] {e : Epoch}
    {t : Option (Rec Result)} (hm : Reached ok ⟨e, t⟩) (spec : RedkeySpec)
    (h : (e.world.store.redkeys persistentCluster.key).any
      (fun live => decide (AdmittedEdit ok e.world live spec)) = true) :
    Reached ok ⟨e.edited spec, t⟩ :=
  hm.env ⟨trivial, World.env_edited spec h, rfl⟩

/-- Two reports of Robin's, from Pending to Applied. -/
theorem Reached.apply {e : Epoch} {t : Option (Rec Result)} (hm : Reached ok ⟨e, t⟩)
    (sequence : Int)
    (hstart : ((e.world.configsOf persistentCluster.key).find? fun c =>
      c.spec.sequence = sequence).any (fun c => decide (TakesInTurn
        (e.world.configsOf persistentCluster.key) c { configPhase := .inProgress })) = true)
    (hend : (((e.world.reported persistentCluster.key sequence
      { configPhase := .inProgress }).configsOf persistentCluster.key).find? fun c =>
        c.spec.sequence = sequence).any (fun c => decide (TakesInTurn
        ((e.world.reported persistentCluster.key sequence
          { configPhase := .inProgress }).configsOf persistentCluster.key) c
        { configPhase := .applied })) = true) :
    Reached ok ⟨e.applying sequence, t⟩ := by
  have hfirst : Reached ok ⟨{ e with
      world := e.world.reported persistentCluster.key sequence
        { configPhase := .inProgress } }, t⟩ :=
    hm.env ⟨trivial, World.env_reported hstart, rfl⟩
  exact hfirst.env ⟨trivial, World.env_reported hend, rfl⟩

end Epoch

/-- The cluster before its first reconcile. -/
def unappliedEpoch : Epoch := ⟨World.initial persistentCluster, false⟩

/-- The spec with which its user goes to zero. -/
def zeroSpec : RedkeySpec := { persistentCluster.spec with primaries := 0 }

/-- Its first config is created, and Robin applies it. -/
def onceApplied : Epoch := (unappliedEpoch.reconciling 40).shared.applying 1

/-- A reconcile has recorded it. The user goes to zero in the middle of the
next one, which has read the Redkey with its three primaries; it needs no
config, and is brought to its end. -/
def zeroAsked : Machine Call Resp (Except Err Result) Epoch :=
  let m := (onceApplied.reconciling 40).shared.reconciling 4
  Machine.advance Epoch.answer 40 ⟨m.shared.edited zeroSpec, m.thread⟩

/-- The cluster is reconciled and Robin scales it down; the teardown comes to
its status write. -/
def settledTeardown : Machine Call Resp (Except Err Result) Epoch :=
  (((zeroAsked.shared.reconciling 40).shared).applying 2).reconciling 9

/-- The same, with a user who goes to zero before a reconcile has recorded the
first config. -/
def hastyTeardown : Machine Call Resp (Except Err Result) Epoch :=
  ((((onceApplied.edited zeroSpec).reconciling 40).shared).applying 2).reconciling 9

theorem initial_unapplied : Unapplied persistentCluster.key unappliedEpoch where
  formed := World.initial_formed _
  live := ⟨persistentCluster, by simp [unappliedEpoch, World.initial], rfl, by decide, by decide⟩
  configs := rfl
  applied := rfl

theorem onceApplied_reached {ok : World → Redkey → RedkeySpec → Prop} :
    Epoch.Reached ok ⟨onceApplied, none⟩ := by
  have hidle : Epoch.Reached ok ⟨unappliedEpoch, none⟩ := Reachable.idle initial_unapplied
  have hcreated := hidle.reconcile (by decide +kernel) (by decide +kernel)
  exact hcreated.apply 1 (by decide +kernel) (by decide +kernel)

/-- The run in which the user goes to zero in the middle of a reconcile, once
the topology is on record. -/
theorem settledTeardown_reached :
    Epoch.Reached (ZeroWhenSettled persistentCluster.key) settledTeardown := by
  have happlied : Epoch.Reached (ZeroWhenSettled persistentCluster.key) ⟨onceApplied, none⟩ :=
    onceApplied_reached
  have hrecorded := happlied.reconcile (by decide +kernel) (by decide +kernel)
  have hread := Epoch.Reached.calls (hrecorded.start ⟨{ resyncInterval := 60 }, 7, rfl⟩) 4
    (by decide +kernel)
  have hasked : Epoch.Reached (ZeroWhenSettled persistentCluster.key) zeroAsked :=
    (hread.edit zeroSpec (by decide +kernel)).calls 40 (by decide +kernel)
  have hscaling := Epoch.Reached.reconcile (hasked.finish (by decide +kernel)) (by decide +kernel)
    (by decide +kernel)
  have hscaled := hscaling.apply 2 (by decide +kernel) (by decide +kernel)
  exact Epoch.Reached.calls (hscaled.start ⟨{ resyncInterval := 60 }, 7, rfl⟩) 9 (by decide +kernel)

/-- The run in which the user does not wait for a reconcile. -/
theorem hastyTeardown_reached : Epoch.Reached (fun _ _ _ => True) hastyTeardown := by
  have happlied : Epoch.Reached (fun _ _ _ => True) ⟨onceApplied, none⟩ := onceApplied_reached
  have hasked := happlied.edit zeroSpec (by decide +kernel)
  have hscaling := hasked.reconcile (by decide +kernel) (by decide +kernel)
  have hscaled := hscaling.apply 2 (by decide +kernel) (by decide +kernel)
  exact Epoch.Reached.calls (hscaled.start ⟨{ resyncInterval := 60 }, 7, rfl⟩) 9 (by decide +kernel)

/-- The write that is about to be made, and that it is accepted. -/
theorem Epoch.Reached.completed {ok : World → Redkey → RedkeySpec → Prop}
    {m : Machine Call Resp (Except Err Result) Epoch} (hm : Epoch.Reached ok m)
    (h : (nextWrite m.thread).any (fun written => m.shared.deleting &&
      Epoch.accepts (.updateRedkeyStatus written) m.shared) = true) :
    ∃ written k stored e',
      Epoch.Reached ok ⟨m.shared, some (.call (.updateRedkeyStatus written) k)⟩ ∧
      m.shared.deleting = true ∧ (topologyRuns id persistentCluster.key ok).exec
        (.updateRedkeyStatus written) m.shared (.ok stored) e' ∧
      nextWrite m.thread = some written ∧ stored.status = written.status := by
  obtain ⟨written, hwritten, htrue⟩ := (Option.any_eq_true _ _).mp h
  obtain ⟨hdeleting, haccepted⟩ := Bool.and_eq_true_iff.mp htrue
  obtain ⟨k, -, hm⟩ := reachable_nextWrite hm hwritten
  have hexec : (topologyRuns id persistentCluster.key ok).exec (.updateRedkeyStatus written)
    m.shared (Epoch.answer (.updateRedkeyStatus written) m.shared).1
    (Epoch.answer (.updateRedkeyStatus written) m.shared).2 := Epoch.answer_exec _ _ haccepted
  -- the write is accepted, and the status that is stored is the written one
  obtain ⟨stored, hstored⟩ := hexec.1 hdeleting
  rw [hstored] at hexec
  refine ⟨written, k, stored, _, hm, hdeleting, hexec, hwritten, ?_⟩
  obtain ⟨-, w, hcall, -⟩ := hexec
  rcases exec_updateRedkeyStatus hcall with ⟨live, stored', -, hwrite, hresp, -⟩ | ⟨⟨_, hresp⟩, -⟩
  · cases hresp
    rw [(Redkey.writeStatus_ok hwrite).2]
  · cases hresp

/-- With a reconcile that has seen the first config Applied before the user
goes to zero, its three primaries are on record after the teardown. -/
theorem teardown_of_settled :
    ∃ (e e' : Epoch) (stored : Redkey) (b : RedkeyConfig), e.deleting = true ∧
      Best e.world.applied b ∧ b.spec.primaries = 3 ∧
      e'.world.store.redkeys persistentCluster.key = some stored ∧ stored.Records b := by
  obtain ⟨written, k, stored, e', hm, hdeleting, hexec, -⟩ :=
    settledTeardown_reached.completed (by decide +kernel)
  obtain ⟨-, hlive, hrecords⟩ := teardown_on_record id persistentCluster.key hm hdeleting hexec
  have hbest : ∃ b ∈ settledTeardown.shared.world.applied, (0 < b.spec.primaries ∧
      ∀ d ∈ settledTeardown.shared.world.applied, 0 < d.spec.primaries →
        d.spec.sequence ≤ b.spec.sequence) ∧ b.spec.primaries = 3 := by decide +kernel
  obtain ⟨b, hmem, hb, hthree⟩ := hbest
  exact ⟨_, e', stored, b, hdeleting, ⟨hmem, hb⟩, hthree, hlive, hrecords b ⟨hmem, hb⟩⟩

/-- The user goes to zero before a reconcile has seen the first config
Applied: nothing is on record after the teardown. -/
theorem teardown_without_record :
    ∃ (e e' : Epoch) (written stored : Redkey)
      (k : Resp (.updateRedkeyStatus written) → Rec Result),
      Reachable (topologyRuns id persistentCluster.key fun _ _ _ => True)
        (Reconciles persistentCluster.key) (Unapplied persistentCluster.key)
        ⟨e, some (.call (.updateRedkeyStatus written) k)⟩ ∧
      e.deleting = true ∧ (topologyRuns id persistentCluster.key fun _ _ _ => True).exec
        (.updateRedkeyStatus written) e (.ok stored) e' ∧
      (∃ b, Best e.world.applied b ∧ b.spec.primaries = 3) ∧
      stored.status.lastAppliedPrimaries = 0 := by
  obtain ⟨written, k, stored, e', hm, hdeleting, hexec, hwritten, hstatus⟩ :=
    hastyTeardown_reached.completed (by decide +kernel)
  have hbest : ∃ b ∈ hastyTeardown.shared.world.applied, (0 < b.spec.primaries ∧
      ∀ d ∈ hastyTeardown.shared.world.applied, 0 < d.spec.primaries →
        d.spec.sequence ≤ b.spec.sequence) ∧ b.spec.primaries = 3 := by decide +kernel
  obtain ⟨b, hmem, hb, hthree⟩ := hbest
  have hrecord : (nextWrite hastyTeardown.thread).map (·.status.lastAppliedPrimaries) = some 0 := by
    decide +kernel
  rw [hwritten, Option.map_some, Option.some.injEq, ← hstatus] at hrecord
  exact ⟨_, e', written, stored, k, hm, hdeleting, hexec, ⟨b, ⟨hmem, hb⟩, hthree⟩, hrecord⟩

end RedkeyOperator
