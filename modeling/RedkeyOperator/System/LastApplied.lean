import RedkeyOperator.Controller.Writes
import RedkeyOperator.System.Lagging

/-!
# The record of the last applied topology

The status keeps the topology of the last config that was Applied with primaries
(`lastAppliedPrimaries`, `lastAppliedReplicasPerPrimary`), for waking up a cluster with storage.
It has two writers: `aggregateStatus`, which reads the Redkey again, and
`updateStatusScaledToZero`, which writes over the Redkey its reconcile started from.

Both write over what they read or fail: a version with the resource version of the stored Redkey
is the stored one (`Redkey.UpTo`). So a write keeps the record of the version it replaces, or puts
the pair of one listed config in its place.

The runs carry a history of the configs that have been Applied so far.
-/

namespace RedkeyOperator

open Interleaved Relation

/-- The configs that are Applied on the server. -/
def View.applied (v : View) : List RedkeyConfig :=
  v.configs.live.filter fun c => c.status.configPhase = .applied

/-- Runs in which any request may be lost, and no edit changes `ephemeral`,
which the validation rules do not allow. -/
def fixedStorageRuns (fill : Deployment → Deployment) : Sem Call Resp Lagging :=
  ((lagging fill).guarded (fun _ _ _ => True) fun s s' =>
    s'.view.redkey.live.spec.ephemeral = s.view.redkey.live.spec.ephemeral).lossy lost

/-- The same, with the configs that were Applied at some time. They are noted
after every step. -/
def recordedRuns (fill : Deployment → Deployment) :
    Sem Call Resp (Lagging × List RedkeyConfig) :=
  (fixedStorageRuns fill).withHistory (fun s applied => applied ++ s.view.applied)
    fun _ _ s applied => applied ++ s.view.applied

/-- Nothing is recorded. -/
def RedkeyStatus.Unrecorded (status : RedkeyStatus) : Prop :=
  status.lastAppliedPrimaries = 0 ∧ status.lastAppliedReplicasPerPrimary = 0

/-- The record is empty, or it is the topology of one of the configs. The two
fields never come from two configs. -/
def RedkeyStatus.RecordOf (applied : List RedkeyConfig) (status : RedkeyStatus) : Prop :=
  status.Unrecorded ∨
    0 < status.lastAppliedPrimaries ∧ ∃ c ∈ applied, c.status.configPhase = .applied ∧
      c.spec.primaries = status.lastAppliedPrimaries ∧
      c.spec.replicasPerPrimary = status.lastAppliedReplicasPerPrimary

theorem RedkeyStatus.RecordOf.mono {applied applied' : List RedkeyConfig} {status : RedkeyStatus}
    (h : status.RecordOf applied) (hsub : ∀ c ∈ applied, c ∈ applied') :
    status.RecordOf applied' := by
  rcases h with hnone | ⟨hpos, c, hc, hpair⟩
  · exact Or.inl hnone
  · exact Or.inr ⟨hpos, c, hsub c hc, hpair⟩

/-! ## Versions -/

/-- `r` is the stored Redkey, or an earlier version of it. Every write makes a
higher resource version. -/
structure Redkey.UpTo (r live : Redkey) : Prop where
  version : r = live ∨ r.resourceVersion < live.resourceVersion
  ephemeral : r.spec.ephemeral = live.spec.ephemeral

namespace Redkey.UpTo

variable {r live live' : Redkey}

theorem refl (r : Redkey) : r.UpTo r := ⟨Or.inl rfl, rfl⟩

/-- An earlier version stays one when the Redkey is written again. -/
theorem newer (h : r.UpTo live) (hversion : live.resourceVersion < live'.resourceVersion)
    (heph : live'.spec.ephemeral = live.spec.ephemeral) : r.UpTo live' := by
  refine ⟨Or.inr ?_, h.ephemeral.trans heph.symm⟩
  rcases h.version with rfl | hlt
  · exact hversion
  · exact hlt.trans hversion

/-- A write that is not a conflict is over the stored version. -/
theorem eq_live (h : r.UpTo live) (hversion : live.resourceVersion = r.resourceVersion) :
    r = live := by
  rcases h.version with heq | hlt
  · exact heq
  · exact absurd hversion hlt.ne'

end Redkey.UpTo

/-! ## The invariant -/

/-- What holds of the server, the caches and the memory of the running
reconcile. -/
structure Recorded (v : View) (applied : List RedkeyConfig) (m : Memory) : Prop where
  /-- Whatever is read or was read is the stored Redkey or an earlier
  version. -/
  versions : ∀ r ∈ v.redkey.versions, r.UpTo v.redkey.live
  snapshot : ∀ r, m.snapshot = some r → r.UpTo v.redkey.live
  redkeys : ∀ r ∈ m.redkeys, r.UpTo v.redkey.live
  /-- Whatever is listed or was listed as Applied is in the history. -/
  listable : ∀ L ∈ v.configs.versions, ∀ c ∈ L, c.status.configPhase = .applied → c ∈ applied
  configs : ∀ c ∈ m.configs, c.status.configPhase = .applied → c ∈ applied
  record : v.redkey.live.status.RecordOf applied
  ephemeral : v.redkey.live.spec.ephemeral = true → v.redkey.live.status.Unrecorded

/-- A record is not cleared: once there is a topology with primaries, there
always is one. -/
def View.KeepsRecord (v v' : View) : Prop :=
  v.redkey.live.status.lastAppliedPrimaries ≠ 0 → v'.redkey.live.status.lastAppliedPrimaries ≠ 0

/-- What a response tells is no news to the server and the history. A Redkey
that was read is an earlier version, and Applied configs were Applied. -/
def Knows (live : Redkey) (applied : List RedkeyConfig) : (c : Call) → Resp c → Prop
  | .getRedkey _ _, .ok r => r.UpTo live
  | .listConfigs _ _ _ _, .ok items =>
      ∀ c ∈ items, c.status.configPhase = .applied → c ∈ applied
  | _, _ => True

namespace Recorded

variable {v v' : View} {applied applied' : List RedkeyConfig} {m : Memory} {key : NamespacedName}

/-- At the start nothing was read, and nothing is recorded. -/
theorem init (h : v.Init key) (hnone : v.redkey.live.status.Unrecorded) : Recorded v [] {} where
  versions r hr := by
    rw [h.redkey] at hr ⊢
    obtain rfl : r = v.snapshot := by simpa [Lag.versions] using hr
    exact Redkey.UpTo.refl _
  snapshot _ hr := by cases hr
  redkeys _ hr := by cases hr
  listable L hL c hc _ := by
    rw [h.configs] at hL
    obtain rfl : L = [] := by simpa [Lag.versions] using hL
    exact hc
  configs _ hc _ := hc
  record := Or.inl hnone
  ephemeral _ := hnone

theorem mono (h : Recorded v applied m) (hsub : ∀ c ∈ applied, c ∈ applied') :
    Recorded v applied' m :=
  { h with
    listable := fun L hL c hc happ => hsub c (h.listable L hL c hc happ)
    configs := fun c hc happ => hsub c (h.configs c hc happ)
    record := h.record.mono hsub }

/-- A new version of the Redkey, by an edit or by a status write. -/
theorem commit (h : Recorded v applied m) {live : Redkey}
    (hversion : v.redkey.live.resourceVersion < live.resourceVersion)
    (heph : live.spec.ephemeral = v.redkey.live.spec.ephemeral)
    (hrecord : live.status.RecordOf applied)
    (hephemeral : live.spec.ephemeral = true → live.status.Unrecorded) :
    Recorded { v with redkey := v.redkey.commit live } applied m where
  versions r hr := by
    rcases Lag.mem_versions_commit.mp hr with hold | rfl
    · exact (h.versions r hold).newer hversion heph
    · exact Redkey.UpTo.refl _
  snapshot r hr := (h.snapshot r hr).newer hversion heph
  redkeys r hr := (h.redkeys r hr).newer hversion heph
  listable := h.listable
  configs := h.configs
  record := hrecord
  ephemeral := hephemeral

theorem read (h : Recorded v applied m) {l : Lag Redkey} (hl : v.redkey.Read l) (site : ReadSite) :
    Recorded (v.readAt site l) applied m := by
  have hlive : l.live = v.redkey.live := hl.1
  have hread : Recorded { v with redkey := l } applied m := by
    refine ⟨?_, ?_, ?_, h.listable, h.configs, ?_, ?_⟩ <;> rw [hlive]
    · exact fun r hr => h.versions r (hl.mem hr)
    · exact h.snapshot
    · exact h.redkeys
    · exact h.record
    · exact h.ephemeral
  cases site with
  | reconcile => exact { hread with }
  | aggregateStatus => exact hread

theorem list (h : Recorded v applied m) {l : Lag (List RedkeyConfig)} (hl : v.configs.Read l) :
    Recorded { v with configs := l } applied m :=
  { h with listable := fun L hL => h.listable L (hl.mem hL) }

/-- A new version of the configs; the history gets those that are Applied in
it. -/
theorem commitConfigs (h : Recorded v applied m) (L created : List RedkeyConfig) :
    Recorded { v with configs := v.configs.commit L, created := created }
      (applied ++ View.applied { v with configs := v.configs.commit L, created := created }) m := by
  refine { h.mono fun c hc => List.mem_append_left _ hc with listable := ?_ }
  intro K hK c hc happ
  rcases Lag.mem_versions_commit.mp hK with hold | rfl
  · exact List.mem_append_left _ (h.listable K hold c hc happ)
  · exact List.mem_append_right _ (List.mem_filter.mpr ⟨hc, decide_eq_true happ⟩)

theorem writeConfigs (h : Recorded v applied m) (created : List RedkeyConfig)
    (outcome : Except ApiError (List RedkeyConfig)) :
    Recorded (v.writeConfigs created outcome).2
        (applied ++ (v.writeConfigs created outcome).2.applied) m ∧
      v.KeepsRecord (v.writeConfigs created outcome).2 := by
  cases outcome with
  | ok L => exact ⟨h.commitConfigs L _, id⟩
  | error e => exact ⟨h.mono fun c hc => List.mem_append_left _ hc, id⟩

/-- A step of the user or of Robin. -/
theorem env (h : Recorded v applied m) (hstep : View.Env v v')
    (heph : v'.redkey.live.spec.ephemeral = v.redkey.live.spec.ephemeral) :
    Recorded v' (applied ++ v'.applied) m ∧ v.KeepsRecord v' := by
  cases hstep with
  | userUpdate spec _ =>
      -- an edit leaves the status alone
      refine ⟨(h.commit (Nat.lt_succ_self _) heph h.record ?_).mono fun c hc =>
        List.mem_append_left _ hc, id⟩
      exact fun he => h.ephemeral (heph.symm.trans he)
  | robinWrite k status => exact ⟨h.commitConfigs _ _, id⟩

/-! ## Status writes -/

/-- The pair that `aggregateStatus` writes: both fields of the active config,
or both fields of the version it replaces. -/
theorem aggregated (h : Recorded v applied m) {active : RedkeyConfig} (hactive : active ∈ m.configs)
    (now : Time) (generation : Int) :
    (aggregatedStatus now generation v.redkey.live active).RecordOf applied ∧
      (v.redkey.live.spec.ephemeral = true →
        (aggregatedStatus now generation v.redkey.live active).Unrecorded) ∧
      (v.redkey.live.status.lastAppliedPrimaries ≠ 0 →
        (aggregatedStatus now generation v.redkey.live active).lastAppliedPrimaries ≠ 0) := by
  by_cases hguard : recordsTopology v.redkey.live active = true
  · -- the pair of the active config, both halves
    have hpair : (aggregatedStatus now generation v.redkey.live active).lastAppliedPrimaries =
          active.spec.primaries ∧
        (aggregatedStatus now generation v.redkey.live active).lastAppliedReplicasPerPrimary =
          active.spec.replicasPerPrimary := by
      simp [aggregatedStatus, hguard]
    have hparts : v.redkey.live.spec.ephemeral = false ∧
        active.status.configPhase = .applied ∧ 0 < active.spec.primaries := by
      simpa [recordsTopology] using hguard
    obtain ⟨hnot, happlied, hpos⟩ := hparts
    refine ⟨Or.inr ?_, ?_, ?_⟩
    · rw [hpair.1, hpair.2]
      exact ⟨hpos, active, h.configs active hactive happlied, happlied, rfl, rfl⟩
    · intro he
      rw [hnot] at he
      cases he
    · rw [hpair.1]
      exact fun _ => hpos.ne'
  · -- the pair of the version it replaces
    have hpair : (aggregatedStatus now generation v.redkey.live active).lastAppliedPrimaries =
          v.redkey.live.status.lastAppliedPrimaries ∧
        (aggregatedStatus now generation v.redkey.live active).lastAppliedReplicasPerPrimary =
          v.redkey.live.status.lastAppliedReplicasPerPrimary := by
      simp [aggregatedStatus, hguard]
    unfold RedkeyStatus.RecordOf RedkeyStatus.Unrecorded
    rw [hpair.1, hpair.2]
    exact ⟨h.record, h.ephemeral, id⟩

/-- A status write that reaches the server. It is over the stored version, or
refused. -/
theorem write (h : Recorded v applied m) {written stored : Redkey} (hw : m.Writes written)
    (hstored : v.redkey.live.writeStatus written = .ok stored) :
    Recorded { v with redkey := v.redkey.commit stored } applied m ∧
      v.KeepsRecord { v with redkey := v.redkey.commit stored } := by
  obtain ⟨hversion, rfl⟩ := Redkey.writeStatus_ok hstored
  cases hw with
  | @aggregated cluster latest active now _ hlatest hactive =>
      -- the Redkey that was read again
      obtain rfl : latest = v.redkey.live := (h.redkeys latest hlatest).eq_live hversion
      obtain ⟨hrecord, heph, hkeeps⟩ := h.aggregated hactive now cluster.generation
      exact ⟨h.commit (Nat.lt_succ_self _) rfl hrecord heph, hkeeps⟩
  | @scaledToZero cluster items now hsnapshot _ _ _ =>
      -- the Redkey the reconcile started from
      obtain rfl : cluster = v.redkey.live := (h.snapshot cluster hsnapshot).eq_live hversion
      exact ⟨h.commit (Nat.lt_succ_self _) rfl h.record h.ephemeral, id⟩

/-! ## Calls -/

variable {c : Call}

/-- A call that reaches the server. -/
theorem exec {r : Resp c} (h : Recorded v applied m) (hallows : m.Allows c)
    (hexec : View.exec c v r v') :
    Recorded v' (applied ++ v'.applied) m ∧ v.KeepsRecord v' ∧
      Knows v'.redkey.live (applied ++ v'.applied) c r := by
  -- the history is noted after every call
  have hmore : ∀ {w : View}, Recorded w applied m → Recorded w (applied ++ w.applied) m :=
    fun hw => hw.mono fun c hc => List.mem_append_left _ hc
  cases c with
  | getRedkey key site =>
      obtain ⟨l, hl, rfl, rfl⟩ := hexec
      have hread := h.read hl site
      -- both reads leave the versions that were not read yet
      have hlive : (v.readAt site l).redkey = l := by cases site <;> rfl
      refine ⟨hmore hread, ?_, ?_⟩
      · unfold View.KeepsRecord
        rw [hlive, hl.1]
        exact id
      · refine hread.versions _ ?_
        rw [hlive]
        exact Lag.head_mem
  | updateRedkeyStatus written =>
      obtain ⟨rfl, rfl⟩ := hexec
      cases hstored : v.redkey.live.writeStatus written with
      | error e => exact ⟨hmore h, id, trivial⟩
      | ok stored =>
          obtain ⟨hwrite, hkeeps⟩ := h.write hallows hstored
          exact ⟨hmore hwrite, hkeeps, trivial⟩
  | listConfigs ns label value site =>
      obtain ⟨l, items, hl, hitems, rfl, rfl⟩ := hexec
      refine ⟨hmore (h.list hl), id, ?_⟩
      -- what is listed as Applied was Applied in that version
      intro d hd happ
      have hmem := List.mem_of_mem_filter (hitems.mem_iff.mp hd)
      exact List.mem_append_left _ (h.listable _ (hl.mem Lag.head_mem) d hmem happ)
  | createConfig config =>
      obtain rfl : v' = _ := congrArg Prod.snd hexec
      obtain ⟨hwrite, hkeeps⟩ := h.writeConfigs [config] (Configs.create v.configs.live config)
      exact ⟨hwrite, hkeeps, trivial⟩
  | deleteConfig k =>
      obtain rfl : v' = _ := congrArg Prod.snd hexec
      obtain ⟨hwrite, hkeeps⟩ := h.writeConfigs [] (Configs.delete v.configs.live k)
      exact ⟨hwrite, hkeeps, trivial⟩
  | _ =>
      obtain rfl : v' = v := hexec
      exact ⟨hmore h, id, trivial⟩

theorem note (h : Recorded v applied m) {r : Resp c} (hr : Knows v.redkey.live applied c r) :
    Recorded v applied (m.note c r) := by
  unfold Memory.note
  split
  · -- a reconcile starts
    refine { h with snapshot := ?_, redkeys := ?_, configs := ?_ }
    · rintro _ ⟨⟩
      exact hr
    · exact fun _ hx => absurd hx List.not_mem_nil
    · exact fun _ hx => absurd hx List.not_mem_nil
  · refine { h with snapshot := ?_, redkeys := ?_, configs := ?_ }
    · rintro _ ⟨⟩
    · exact fun _ hx => absurd hx List.not_mem_nil
    · exact fun _ hx => absurd hx List.not_mem_nil
  · -- an attempt of `aggregateStatus`
    refine { h with redkeys := ?_ }
    simpa [or_imp, forall_and] using ⟨h.redkeys, hr⟩
  · refine { h with configs := ?_ }
    simpa [or_imp, forall_and] using ⟨h.configs, hr⟩
  · refine { h with configs := ?_ }
    simpa [or_imp, forall_and] using ⟨h.configs, hr⟩
  · exact h

end Recorded

/-! ## Runs -/

section Runs

variable {fill : Deployment → Deployment} {key : NamespacedName}

/-- A Redkey without configs and without a record. Nothing was Applied so
far. -/
structure NothingRecorded (key : NamespacedName) (x : Lagging × List RedkeyConfig) : Prop where
  init : x.1.view.Init key
  unrecorded : x.1.view.redkey.live.status.Unrecorded
  history : x.2 = []

/-- The runs with the memory of the running reconcile. -/
def rememberedRuns (fill : Deployment → Deployment) :
    Sem Call Resp ((Lagging × List RedkeyConfig) × Memory) :=
  (recordedRuns fill).withHistory (fun _ m => m) fun c r _ => Memory.note c r

/-- A call of the running reconcile, lost or not. -/
theorem Recorded.call {x y : Lagging × List RedkeyConfig} {m : Memory} {c : Call} {r : Resp c}
    (h : Recorded x.1.view x.2 m) (hallows : m.Allows c)
    (hexec : (recordedRuns fill).exec c x r y) :
    Recorded y.1.view y.2 (m.note c r) ∧ x.1.view.KeepsRecord y.1.view := by
  obtain ⟨hcall, hhist⟩ := hexec
  rw [hhist]
  -- a lost response tells nothing
  have hlost : ∀ live applied, Knows live applied c (lost c) := by
    intro live applied
    cases c <;> trivial
  rcases hcall with ⟨-, hexec, -⟩ | ⟨rfl, heq | ⟨r₀, -, hexec, -⟩⟩
  · obtain ⟨hrec, hkeeps, hknows⟩ := h.exec hallows hexec
    exact ⟨hrec.note hknows, hkeeps⟩
  · -- the request did not arrive
    rw [heq]
    exact ⟨(h.mono fun c hc => List.mem_append_left _ hc).note (hlost _ _), id⟩
  · -- the response did not
    obtain ⟨hrec, hkeeps, -⟩ := h.exec hallows hexec
    exact ⟨hrec.note (hlost _ _), hkeeps⟩

/-- A step of the user or of Robin; the reconcile does not notice. -/
theorem recorded_env {x y : (Lagging × List RedkeyConfig) × Memory}
    (henv : (rememberedRuns fill).env x y) (h : Recorded x.1.1.view x.1.2 x.2) :
    Recorded y.1.1.view y.1.2 y.2 ∧ x.1.1.view.KeepsRecord y.1.1.view := by
  obtain ⟨⟨⟨heph, hstep, -⟩, hhist⟩, hmem⟩ := henv
  rw [hhist, hmem]
  exact h.env hstep heph

/-- Every run keeps the invariant, and the record. -/
theorem recorded_steps {init : (Lagging × List RedkeyConfig) × Memory → Prop}
    {m m' : Machine Call Resp (Except Err Result) ((Lagging × List RedkeyConfig) × Memory)}
    (hm : Reachable (rememberedRuns fill) (Reconciles key) init m)
    (hrun : ReflTransGen (Step (rememberedRuns fill) (Reconciles key)) m m')
    (h : Recorded m.shared.1.1.view m.shared.1.2 m.shared.2) :
    Recorded m'.shared.1.1.view m'.shared.1.2 m'.shared.2 ∧
      m.shared.1.1.view.KeepsRecord m'.shared.1.1.view := by
  refine Reachable.steps (D := fun x y => Recorded x.1.1.view x.1.2 x.2 →
    Recorded y.1.1.view y.1.2 y.2 ∧ x.1.1.view.KeepsRecord y.1.1.view) ?_ ?_ ?_ ?_ hm hrun h
  · exact fun _ h => ⟨h, id⟩
  · -- the steps of a run, one after another
    intro x₁ x₂ x₃ h₁₂ h₂₃ h
    obtain ⟨h₂, hkeeps⟩ := h₁₂ h
    obtain ⟨h₃, hkeeps'⟩ := h₂₃ h₂
    exact ⟨h₃, fun hne => hkeeps' (hkeeps hne)⟩
  · exact fun _ _ henv h => recorded_env henv h
  · intro x c k r y hcall hexec h
    have hallows : x.2.Allows c := Reachable.remembers (fun _ hp => reconcile_writes hp) hcall r
    rw [hexec.2]
    exact h.call hallows hexec.1

/-- The recorded topology is that of one config that has been Applied; a
record is never cleared, and a cluster without storage has none. -/
theorem recorded_topology_kept (fill : Deployment → Deployment) (key : NamespacedName)
    {x : Lagging × List RedkeyConfig} {t : Option (Rec Result)}
    (hm : Reachable (recordedRuns fill) (Reconciles key) (NothingRecorded key) ⟨x, t⟩) :
    x.1.view.redkey.live.status.RecordOf x.2 ∧
      (x.1.view.redkey.live.spec.ephemeral = true →
        x.1.view.redkey.live.status.Unrecorded) ∧
      ∀ y t', ReflTransGen (Step (recordedRuns fill) (Reconciles key)) ⟨x, t⟩ ⟨y, t'⟩ →
        x.1.view.KeepsRecord y.1.view := by
  have hmem : ∃ m, Reachable (rememberedRuns fill) (Reconciles key)
      (fun x => NothingRecorded key x.1 ∧ x.2 = {}) ⟨(x, m), t⟩ :=
    hm.withHistory ({} : Memory)
  obtain ⟨m, hmem⟩ := hmem
  -- the run so far, from nothing on record
  have hrec : Recorded x.1.view x.2 m := by
    obtain ⟨⟨x₀, m₀⟩, ⟨hinit, rfl⟩, hrun⟩ := hmem
    have hidle : Reachable (rememberedRuns fill) (Reconciles key) (fun _ => True)
        ⟨(x₀, ({} : Memory)), none⟩ := Reachable.idle trivial
    refine (recorded_steps hidle hrun ?_).1
    rw [hinit.history]
    exact Recorded.init hinit.init hinit.unrecorded
  refine ⟨hrec.record, hrec.ephemeral, ?_⟩
  -- and the run from here on
  intro y t' hrun
  have hrun' : ∃ m', ReflTransGen (Step (rememberedRuns fill) (Reconciles key)) ⟨(x, m), t⟩
      ⟨(y, m'), t'⟩ := steps_withHistory hrun m
  obtain ⟨m', hrun'⟩ := hrun'
  exact (recorded_steps hmem hrun' hrec).2

end Runs

/-! ### A record -/

/-- A new cluster after its first reconcile. -/
def onceReconciled : Machine Call Resp (Except Err Result) Lagging :=
  Machine.advance (fun c s => Lagging.answer id true c s) 30 ⟨Lagging.initial persistentCluster,
    some (reconcile { resyncInterval := 60 } 7 persistentCluster.key)⟩

/-- Robin has applied its config. -/
def onceApplying : Lagging :=
  onceReconciled.shared.reported ⟨"cache", "c-1"⟩ { configPhase := .applied }

/-- The second reconcile. -/
def twiceReconciled : Machine Call Resp (Except Err Result) Lagging :=
  Machine.advance (fun c s => Lagging.answer id true c s) 30
    ⟨onceApplying, some (reconcile { resyncInterval := 60 } 8 persistentCluster.key)⟩

theorem fixedStorage_advance {init : Lagging → Prop} {key : NamespacedName}
    {m : Machine Call Resp (Except Err Result) Lagging}
    (hm : Reachable (fixedStorageRuns id) (Reconciles key) init m) (n : ℕ) :
    Reachable (fixedStorageRuns id) (Reconciles key) init
      (m.advance (fun c s => Lagging.answer id true c s) n) :=
  hm.advance (fun _ _ => true)
    (fun c s _ => Or.inl ⟨trivial, Lagging.answer_exec id true c s⟩) n
    fun p _ => Prog.checks_true _ n p _

/-- Robin applies the config between the two reconciles. -/
theorem twiceReconciled_reachable :
    Reachable (fixedStorageRuns id) (Reconciles persistentCluster.key)
      (· = Lagging.initial persistentCluster) twiceReconciled := by
  have hidle : Reachable (fixedStorageRuns id) (Reconciles persistentCluster.key)
      (· = Lagging.initial persistentCluster) ⟨Lagging.initial persistentCluster, none⟩ :=
    Reachable.idle rfl
  have hfirst : Reachable (fixedStorageRuns id) (Reconciles persistentCluster.key)
      (· = Lagging.initial persistentCluster) onceReconciled :=
    fixedStorage_advance (hidle.start ⟨_, _, rfl⟩) 30
  have happlied : Reachable (fixedStorageRuns id) (Reconciles persistentCluster.key)
      (· = Lagging.initial persistentCluster) ⟨onceApplying, none⟩ :=
    (hfirst.finish (by decide +kernel)).env
      ⟨rfl, View.Env.robinWrite ⟨"cache", "c-1"⟩ { configPhase := .applied }, rfl⟩
  exact fixedStorage_advance (happlied.start ⟨_, _, rfl⟩) 30

/-- The second reconcile has recorded three primaries with one replica
each. -/
theorem recorded_topology_of_persistentCluster :
    ∃ applied, Reachable (recordedRuns id) (Reconciles persistentCluster.key)
        (NothingRecorded persistentCluster.key)
        ⟨(twiceReconciled.shared, applied), twiceReconciled.thread⟩ ∧
      ∃ c ∈ applied, c.spec.primaries = 3 ∧ c.spec.replicasPerPrimary = 1 := by
  obtain ⟨applied, hrun⟩ : ∃ applied, Reachable (recordedRuns id) (Reconciles persistentCluster.key)
      (fun x => x.1 = Lagging.initial persistentCluster ∧ x.2 = [])
      ⟨(twiceReconciled.shared, applied), twiceReconciled.thread⟩ :=
    twiceReconciled_reachable.withHistory []
  have hm : Reachable (recordedRuns id) (Reconciles persistentCluster.key)
      (NothingRecorded persistentCluster.key)
      ⟨(twiceReconciled.shared, applied), twiceReconciled.thread⟩ := by
    obtain ⟨⟨_, _⟩, ⟨rfl, rfl⟩, hsteps⟩ := hrun
    refine ⟨_, ⟨Lagging.initial_init (by decide), ⟨by decide, by decide⟩, rfl⟩, hsteps⟩
  refine ⟨applied, hm, ?_⟩
  have hpair : twiceReconciled.shared.view.redkey.live.status.lastAppliedPrimaries = 3 ∧
      twiceReconciled.shared.view.redkey.live.status.lastAppliedReplicasPerPrimary = 1 := by
    decide +kernel
  rcases (recorded_topology_kept id persistentCluster.key hm).1 with hnone | ⟨-, c, hc, -, hp, hr⟩
  · exact absurd (hpair.1.symm.trans hnone.1) (by decide)
  · exact ⟨c, hc, hp.trans hpair.1, hr.trans hpair.2⟩

end RedkeyOperator
