import RedkeyOperator.System.Lagging
import RedkeyOperator.Lib.Trace

/-!
# One status aggregation among other writers

`aggregateStatus` reads the Redkey, writes the status over what it read, and starts again when the
write is a conflict. Other writers may commit versions of the Redkey before any of its requests,
with any spec and status, and the read may be outdated.

* an attempt that is written is written over the version it read (`traces_attempt`): no commit
  gets lost in between;
* the other attempts leave no trace, so the whole loop is one write or none
  (`traces_retryOnConflict`).
-/

namespace RedkeyOperator

open Interleaved Relation

/-! ## Other writers -/

/-- Another writer commits a version of the Redkey, with any spec and
status. -/
def View.Commits (v v' : View) : Prop :=
  ∃ r : Redkey, v.redkey.live.resourceVersion < r.resourceVersion ∧
    v' = { v with redkey := v.redkey.commit r }

/-- A step that writes nothing: a commit of another writer, or a read. These
are the steps that may come in between the read and the write of an
attempt. -/
def View.Moves (v v' : View) : Prop :=
  v.Commits v' ∨ ∃ l, v.redkey.Read l ∧ v' = { v with redkey := l }

/-- The Redkey with other writers; a request may fail, and has no effect
then. -/
def contended : Sem Call Resp View where
  env := View.Commits
  exec c v r v' := View.exec c v r v' ∨ ∃ e, r = .error e ∧ v' = v

/-- Every version has a higher resource version than the ones before it. So a
status write that is accepted was made from the latest one. -/
def View.Versioned (v : View) : Prop :=
  v.redkey.Ordered fun r r' => r.resourceVersion < r'.resourceVersion

namespace View

variable {v v' : View}

theorem Versioned.commits (h : v.Versioned) (hstep : v.Commits v') : v'.Versioned := by
  obtain ⟨r, hnewer, rfl⟩ := hstep
  refine Lag.ordered_commit.mpr ⟨h, fun r' hr' => ?_⟩
  rcases Lag.Ordered.live h hr' with rfl | hlt
  · exact hnewer
  · exact hlt.trans hnewer

theorem Versioned.moves (h : v.Versioned) (hsteps : ReflTransGen Moves v v') : v'.Versioned := by
  induction hsteps with
  | refl => exact h
  | tail _ hstep ih =>
      rcases hstep with hcommits | ⟨l, hl, rfl⟩
      · exact ih.commits hcommits
      · exact Lag.Ordered.read ih hl

/-- Commits make no version disappear. -/
theorem mem_of_commits (hsteps : ReflTransGen Commits v v') {r : Redkey}
    (hr : r ∈ v.redkey.versions) : r ∈ v'.redkey.versions := by
  induction hsteps with
  | refl => exact hr
  | tail _ hstep ih =>
      obtain ⟨r', -, rfl⟩ := hstep
      exact Lag.mem_versions_commit.mpr (Or.inl ih)

theorem moves_of_commits (hsteps : ReflTransGen Commits v v') : ReflTransGen Moves v v' :=
  ReflTransGen.mono (fun _ _ => Or.inl) _ _ hsteps

/-- A write that is not a conflict is over the live version. -/
theorem Versioned.eq_live (h : v.Versioned) {r : Redkey} (hr : r ∈ v.redkey.versions)
    (hversion : v.redkey.live.resourceVersion = r.resourceVersion) : r = v.redkey.live := by
  rcases Lag.Ordered.live h hr with heq | hlt
  · exact heq
  · exact absurd hversion hlt.ne'

end View

/-! ## Attempts -/

/-- A status write that took effect. The other attempts of the loop have
written nothing. -/
def Persists (e : Event Call Resp) : Bool :=
  match e with
  | ⟨.updateRedkeyStatus _, .ok _⟩ => true
  | _ => false

/-- The Redkey with another status, as the server stores it. The status may
depend on the rest of the object. -/
def Redkey.overwritten (live : Redkey) (status : Redkey → RedkeyStatus) : Redkey :=
  { live with
    status := status live
    resourceVersion := live.resourceVersion + 1 }

/-- One write, over the version `v₁` of the Redkey, or none. The first case is
a success and the second a failure, and the number of writes in the trace says
so. -/
def Attempted (cluster : Redkey) (status : Redkey → RedkeyStatus) (v : View)
    (tr : List (Event Call Resp)) (x : Except Err Redkey) (v' : View) : Prop :=
  (∃ v₁, ReflTransGen View.Moves v v₁ ∧
    v' = { v₁ with redkey := v₁.redkey.commit (v₁.redkey.live.overwritten status) } ∧
    x = .ok { cluster with status := status v₁.redkey.live } ∧ tr.countP Persists = 1) ∨
  ∃ e, x = .error (.api e) ∧ ReflTransGen View.Moves v v' ∧ tr.countP Persists = 0

section Attempts

variable {cluster : Redkey} {status : Redkey → RedkeyStatus} {v v₁ v' : View}
variable {tr tr₁ : List (Event Call Resp)} {x : Except Err Redkey}

/-- What comes before the attempt may be added, if it writes nothing. -/
theorem Attempted.after (h : Attempted cluster status v₁ tr x v')
    (hmoves : ReflTransGen View.Moves v v₁) (hcount : tr₁.countP Persists = 0) :
    Attempted cluster status v (tr₁ ++ tr) x v' := by
  rcases h with ⟨v₂, hmoves', hv', hx, hone⟩ | ⟨e, hx, hmoves', hnone⟩
  · have hone' : (tr₁ ++ tr).countP Persists = 1 := by rw [List.countP_append, hcount, hone]
    exact Or.inl ⟨v₂, hmoves.trans hmoves', hv', hx, hone'⟩
  · have hnone' : (tr₁ ++ tr).countP Persists = 0 := by rw [List.countP_append, hcount, hnone]
    exact Or.inr ⟨e, hx, hmoves.trans hmoves', hnone'⟩

/-- The write of an attempt, over a version that could be read. -/
theorem traces_write (hversioned : v.Versioned) {latest : Redkey}
    (hlatest : latest ∈ v.redkey.versions)
    (h : Traces contended.disturbed (do
      let persisted ← api (.updateRedkeyStatus { latest with status := status latest })
      pure { cluster with status := persisted.status } : Rec Redkey) v tr x v') :
    Attempted cluster status v tr x v' := by
  rcases Op.traces_bind.mp h with ⟨tr₁, tr₂, persisted, v₁, rfl, hwrite, hret⟩ | ⟨e, rfl, hwrite⟩
  · obtain ⟨r, ⟨v₀, hcommits, hexec⟩, rfl, hr⟩ := traces_api.mp hwrite
    obtain ⟨rfl, rfl, rfl⟩ := hret
    cases r with
    | error e => cases hr
    | ok stored =>
        obtain rfl : persisted = stored := Except.ok.inj hr
        rcases hexec with ⟨hstored, hv'⟩ | ⟨_, herror, -⟩
        · rw [← hstored] at hv'
          obtain ⟨hversion, rfl⟩ := Redkey.writeStatus_ok hstored.symm
          have hmoves := View.moves_of_commits hcommits
          -- no one has committed since the read
          obtain rfl : latest = v₀.redkey.live :=
            (hversioned.moves hmoves).eq_live (View.mem_of_commits hcommits hlatest) hversion
          exact Or.inl ⟨v₀, hmoves, hv', rfl, rfl⟩
        · cases herror
  · obtain ⟨r, ⟨v₀, hcommits, hexec⟩, rfl, hr⟩ := traces_api.mp hwrite
    cases r with
    | ok stored => cases hr
    | error e' =>
        cases hr
        refine Or.inr ⟨e', rfl, ?_, rfl⟩
        rcases hexec with ⟨hstored, hv'⟩ | ⟨_, -, rfl⟩
        · rw [← hstored] at hv'
          -- the server has refused the write
          rw [hv']
          exact View.moves_of_commits hcommits
        · exact View.moves_of_commits hcommits

/-- One attempt: a read and a write, with commits of others before each. -/
theorem traces_attempt (hversioned : v.Versioned) {key : NamespacedName}
    (h : Traces contended.disturbed (do
      let latest ← api (.getRedkey key .aggregateStatus)
      let persisted ← api (.updateRedkeyStatus { latest with status := status latest })
      pure { cluster with status := persisted.status } : Rec Redkey) v tr x v') :
    Attempted cluster status v tr x v' := by
  rcases Op.traces_bind.mp h with ⟨tr₁, tr₂, latest, v₁, rfl, hread, hrest⟩ | ⟨e, rfl, hread⟩
  · obtain ⟨r, ⟨v₀, hcommits, hexec⟩, rfl, hr⟩ := traces_api.mp hread
    cases r with
    | error e => cases hr
    | ok r =>
        obtain rfl : latest = r := Except.ok.inj hr
        rcases hexec with ⟨l, hl, hhead, rfl⟩ | ⟨_, herror, -⟩
        · -- the read may be of an old version; the write tells
          obtain rfl : latest = l.head := Except.ok.inj hhead
          have hmoves := (View.moves_of_commits hcommits).tail (Or.inr ⟨l, hl, rfl⟩)
          exact (traces_write (hversioned.moves hmoves) Lag.head_mem hrest).after hmoves rfl
        · cases herror
  · obtain ⟨r, ⟨v₀, hcommits, hexec⟩, rfl, hr⟩ := traces_api.mp hread
    cases r with
    | ok r => cases hr
    | error e' =>
        cases hr
        refine Or.inr ⟨e', rfl, ?_, rfl⟩
        rcases hexec with ⟨l, hl, hhead, rfl⟩ | ⟨_, -, rfl⟩
        · cases hhead
        · exact View.moves_of_commits hcommits

/-- The loop is one write or none. An attempt that ends in a conflict has
written nothing, so it can be added to the next one. -/
theorem traces_retryOnConflict {fn : Rec Redkey}
    (hfn : ∀ v tr x v', v.Versioned → Traces contended.disturbed fn v tr x v' →
      Attempted cluster status v tr x v') (n : ℕ) (hversioned : v.Versioned)
    (h : Traces contended.disturbed (retryOnConflict n fn) v tr x v') :
    Attempted cluster status v tr x v' := by
  induction n generalizing v tr with
  | zero => exact hfn v tr x v' hversioned h
  | succ n ih =>
      rcases Op.traces_catchError.mp h with ⟨a, rfl, hrun⟩ | ⟨tr₁, tr₂, e, v₁, rfl, hrun, hrest⟩
      · exact hfn v tr _ v' hversioned hrun
      · rcases hfn v tr₁ _ v₁ hversioned hrun with ⟨_, -, -, hok, -⟩ | ⟨e', he, hmoves, hnone⟩
        · cases hok
        · cases he
          cases e' with
          | conflict => exact (ih (hversioned.moves hmoves) hrest).after hmoves hnone
          | _ =>
              -- any other error ends the loop
              obtain ⟨rfl, rfl, rfl⟩ := hrest
              refine Or.inr ⟨_, rfl, hmoves, ?_⟩
              rw [List.append_nil, hnone]

end Attempts

/-! ## The aggregation -/

/-- What the aggregation of `active` stores over `latest`, for a caller that
started from `cluster` and goes on with `caller`. -/
structure Aggregates (cluster : Redkey) (active : RedkeyConfig) (latest stored caller : Redkey) :
    Prop where
  spec : stored.spec = latest.spec
  observedGeneration : stored.status.observedGeneration = cluster.generation
  /-- The replicas are those of the version that was read again. -/
  replicas : stored.status.replicas = latest.spec.primaries
  unmanaged : stored.status.conditions.filter (fun c => c.type ∉ managedTypes) =
    latest.status.conditions.filter fun c => c.type ∉ managedTypes
  /-- So does the record, if this config does not make one. -/
  record : recordsTopology latest active = false →
    stored.status.lastAppliedPrimaries = latest.status.lastAppliedPrimaries ∧
    stored.status.lastAppliedReplicasPerPrimary = latest.status.lastAppliedReplicasPerPrimary
  caller : caller = { cluster with status := stored.status }

theorem aggregates_overwritten (now : Time) (cluster latest : Redkey) (active : RedkeyConfig) :
    Aggregates cluster active latest
      (latest.overwritten fun r => aggregatedStatus now cluster.generation r active)
      { cluster with status := aggregatedStatus now cluster.generation latest active } where
  spec := rfl
  observedGeneration := rfl
  replicas := rfl
  unmanaged := filter_aggregateConditions now latest.status.conditions active
  record hguard := by simp [Redkey.overwritten, aggregatedStatus, hguard]
  caller := rfl

/-- `aggregateStatus` writes the status once, over the latest version, or not
at all. -/
theorem aggregate_atomic (now : Time) (cluster : Redkey) {configs : List RedkeyConfig}
    (hconfigs : configs ≠ []) {v v' : View} (hversioned : v.Versioned)
    {tr : List (Event Call Resp)} {x : Except Err Redkey}
    (h : Traces contended.disturbed (aggregateStatus now cluster configs) v tr x v') :
    (∀ caller, x = .ok caller → ∃ v₁ active stored, ReflTransGen View.Moves v v₁ ∧
      selectActiveConfig configs = some active ∧
      v' = { v₁ with redkey := v₁.redkey.commit stored } ∧ tr.countP Persists = 1 ∧
      Aggregates cluster active v₁.redkey.live stored caller) ∧
    ∀ e, x = .error e → ReflTransGen View.Moves v v' ∧ tr.countP Persists = 0 := by
  obtain ⟨active, hactive⟩ := exists_active hconfigs
  have hattempted : Attempted cluster (fun r => aggregatedStatus now cluster.generation r active)
      v tr x v' := by
    -- there is an active config, so the loop is entered
    unfold aggregateStatus at h
    rw [hactive] at h
    exact traces_retryOnConflict (fun _ _ _ _ hv hrun => traces_attempt hv hrun) defaultRetry
      hversioned h
  rcases hattempted with ⟨v₁, hmoves, hv', rfl, hone⟩ | ⟨e, rfl, hmoves, hnone⟩
  · constructor
    · rintro _ ⟨⟩
      have haggregates := aggregates_overwritten now cluster v₁.redkey.live active
      exact ⟨v₁, active, _, hmoves, hactive, hv', hone, haggregates⟩
    · rintro _ ⟨⟩
  · constructor
    · rintro _ ⟨⟩
    · rintro _ ⟨⟩
      exact ⟨hmoves, hnone⟩

/-! ### An aggregation that has to be repeated -/

/-- The user scales up just before the first status write. -/
def View.beforeWrite (v : View) : View :=
  if v.redkey.live.resourceVersion = 1 then
    { v with redkey := v.redkey.commit (v.redkey.live.edit { primaries := 5 }) }
  else v

/-- Reads are up to date; the first status write comes too late. -/
def contend : (c : Call) → View → Resp c × View
  | .getRedkey _ site, v => (.ok v.redkey.live, v.readAt site (v.redkey.pick true))
  | .updateRedkeyStatus written, v =>
      (v.beforeWrite.redkey.live.writeStatus written,
        match v.beforeWrite.redkey.live.writeStatus written with
        | .ok stored => { v.beforeWrite with redkey := v.beforeWrite.redkey.commit stored }
        | .error _ => v.beforeWrite)
  | c, v => (lost c, v)

theorem contend_exec (c : Call) (v : View) :
    contended.disturbed.exec c v (contend c v).1 (contend c v).2 := by
  cases c with
  | getRedkey key site =>
      exact ⟨v, .refl, Or.inl ⟨v.redkey.pick true, Lag.read_pick _ _, rfl, rfl⟩⟩
  | updateRedkeyStatus written =>
      refine ⟨v.beforeWrite, ?_, Or.inl ⟨rfl, rfl⟩⟩
      unfold View.beforeWrite
      split
      · exact .single ⟨_, Nat.lt_succ_self _, rfl⟩
      · exact .refl
  | _ => exact ⟨v, .refl, Or.inr ⟨.other, rfl, rfl⟩⟩

/-- A new cluster. -/
def View.ofRedkey (cluster : Redkey) : View where
  redkey := ⟨[], cluster⟩
  configs := ⟨[], []⟩
  snapshot := cluster

/-- Its aggregation, from its first config. -/
def aggregation : Rec Redkey := aggregateStatus 7 sampleCluster [newConfig sampleCluster none]

/-- The second attempt takes the primaries of the new spec. -/
theorem aggregate_of_sampleCluster :
    ∃ v₁ active stored caller, ReflTransGen View.Moves (View.ofRedkey sampleCluster) v₁ ∧
      Aggregates sampleCluster active v₁.redkey.live stored caller ∧
      caller.status.replicas = 5 := by
  have hversioned : (View.ofRedkey sampleCluster).Versioned := List.pairwise_singleton _ _
  have hrun := traces_events contend_exec aggregation (View.ofRedkey sampleCluster)
  have hreplicas : ((aggregation.run contend (View.ofRedkey sampleCluster)).1).toOption.map
      (·.status.replicas) = some 5 := by decide +kernel
  obtain ⟨caller, hok⟩ : ∃ caller,
      (aggregation.run contend (View.ofRedkey sampleCluster)).1 = .ok caller := by
    cases hx : (aggregation.run contend (View.ofRedkey sampleCluster)).1 with
    | ok caller => exact ⟨caller, rfl⟩
    | error e =>
        rw [hx] at hreplicas
        cases hreplicas
  obtain ⟨v₁, active, stored, hmoves, -, -, -, haggregates⟩ :=
    (aggregate_atomic 7 sampleCluster (by simp) hversioned hrun).1 caller hok
  rw [hok] at hreplicas
  exact ⟨v₁, active, stored, caller, hmoves, haggregates, Option.some.inj hreplicas⟩

end RedkeyOperator
