import RedkeyOperator.Controller.Writes
import RedkeyOperator.System.Lagging

/-!
# Health verdicts

`aggregateStatus` publishes the health conditions of a config that has settled, and `Unknown`
otherwise. `updateStatusScaledToZero` sets other conditions only, so it publishes the verdicts
that are in the status of the Redkey its reconcile started from, whatever they are based on.

A write is sound when every verdict in it is one of a settled config that the same reconcile has
read (`Published`). Writes of the first kind are. Those of the second kind repeat what the last
aggregation has published, so they are sound when that one had no verdict to publish. Which
aggregation that is depends on the run: `Trail` keeps the status writes that the server has
accepted, and `Trail.lastSeen` is the last one that went into a given version of the Redkey. If it
never mirrors a Ready config when there is nothing left to scale down, in other words if the
operator has seen Robin at work on the scale down, then every write is sound
(`verdicts_published`). Otherwise one need not be: `stale_verdict_published`.
-/

namespace RedkeyOperator

open Interleaved

/-- The condition says nothing, or what a settled config says. A config is
settled when its phase is terminal and Robin reports it as Ready. -/
def Condition.VerdictOf (configs : List RedkeyConfig) (c : Condition) : Prop :=
  c.status = .conditionUnknown ∨
    ∃ config ∈ configs, isTerminalConfigPhase config.status.configPhase = true ∧
      config.status.status = .ready ∧ ∃ src,
        findStatusCondition config.status.conditions c.type = some src ∧
          c.status = src.status ∧ c.reason = src.reason ∧ c.message = src.message

/-- Every health condition is a verdict of one of the configs, or says
nothing. -/
def Published (configs : List RedkeyConfig) (conditions : List Condition) : Prop :=
  ∀ c ∈ conditions, c.type ∈ healthConditionTypes → c.VerdictOf configs

/-- No health condition says anything: those that are there are `Unknown`. -/
def Silent (conditions : List Condition) : Prop :=
  ∀ c ∈ conditions, c.type ∈ healthConditionTypes → c.status = .conditionUnknown

instance (conditions : List Condition) : Decidable (Silent conditions) :=
  inferInstanceAs (Decidable (∀ c ∈ conditions, c.type ∈ healthConditionTypes → _))

theorem Silent.published {conditions : List Condition} (h : Silent conditions)
    (configs : List RedkeyConfig) : Published configs conditions :=
  fun c hc htype => Or.inl (h c hc htype)

/-! ## The two writers -/

/-- `aggregateStatus` takes its verdicts from the active config, if that is
settled. -/
theorem verdictOf_healthCondition {configs : List RedkeyConfig} {active : RedkeyConfig}
    (hactive : active ∈ configs) (type : String) :
    (healthCondition active type).VerdictOf configs := by
  unfold healthCondition
  dsimp only
  split
  case isTrue hsettled =>
    split
    case h_1 src hsrc =>
      exact Or.inr ⟨active, hactive, hsettled.1, hsettled.2, src, hsrc, rfl, rfl, rfl⟩
    -- => the config does not mention the type
    case h_2 => exact Or.inl rfl
  case isFalse => exact Or.inl rfl

/-- A config that is not Ready has no say. -/
theorem healthCondition_unknown {active : RedkeyConfig} (hactive : active.status.status ≠ .ready)
    (type : String) : (healthCondition active type).status = .conditionUnknown := by
  unfold healthCondition
  simp [hactive]

/-- A health condition of an aggregated status is the one of the active
config, but for its time. -/
theorem health_aggregateConditions {active : RedkeyConfig} {now : Time} {existing : List Condition}
    (hunique : UniqueTypes existing) {c : Condition}
    (hc : c ∈ aggregateConditions now existing active) (htype : c.type ∈ healthConditionTypes) :
    c.status = (healthCondition active c.type).status ∧
      c.reason = (healthCondition active c.type).reason ∧
      c.message = (healthCondition active c.type).message := by
  -- the one condition of its type, so the one that was set
  have hfind := (aggregated_aggregateConditions now active hunique).unique.findStatusCondition hc
  have hset : healthCondition active c.type ∈ statusConditions active :=
    List.mem_append_right _ (List.mem_map_of_mem htype)
  obtain ⟨time, hset⟩ := hasCondition_aggregateConditions now existing active hset
  rw [healthCondition_type, hfind, Option.some.injEq] at hset
  have hstatus := congrArg Condition.status hset
  have hreason := congrArg Condition.reason hset
  have hmessage := congrArg Condition.message hset
  exact ⟨hstatus, hreason, hmessage⟩

/-- So what `aggregateStatus` writes is sound, whatever was published
before. -/
theorem published_aggregateConditions {configs : List RedkeyConfig} {active : RedkeyConfig}
    (hactive : active ∈ configs) (now : Time) {existing : List Condition}
    (hunique : UniqueTypes existing) :
    Published configs (aggregateConditions now existing active) := by
  intro c hc htype
  obtain ⟨hstatus, hreason, hmessage⟩ := health_aggregateConditions hunique hc htype
  have hverdict := verdictOf_healthCondition hactive c.type
  rw [Condition.VerdictOf, healthCondition_type] at hverdict
  rw [Condition.VerdictOf, hstatus, hreason, hmessage]
  exact hverdict

/-- A config that is not Ready has no verdict to publish. -/
theorem silent_aggregateConditions {active : RedkeyConfig} (hactive : active.status.status ≠ .ready)
    (now : Time) {existing : List Condition} (hunique : UniqueTypes existing) :
    Silent (aggregateConditions now existing active) := by
  intro c hc htype
  obtain ⟨hstatus, -, -⟩ := health_aggregateConditions hunique hc htype
  rw [hstatus]
  exact healthCondition_unknown hactive c.type

/-- The other writer leaves them as they are. -/
theorem silent_scaledToZeroConditions (now : Time) {existing : List Condition}
    (h : Silent existing) : Silent (scaledToZeroConditions now existing) := by
  intro c hc htype
  have hmem : c ∈ existing.filter fun c => c.type ∈ healthConditionTypes := by
    rw [← filter_scaledToZeroConditions now]
    exact List.mem_filter.mpr ⟨hc, decide_eq_true htype⟩
  exact h c (List.mem_of_mem_filter hmem) htype

/-- Neither writer repeats a type. -/
theorem uniqueTypes_scaledToZeroConditions (now : Time) {existing : List Condition}
    (h : UniqueTypes existing) : UniqueTypes (scaledToZeroConditions now existing) := by
  rw [scaledToZeroConditions_eq]
  exact uniqueTypes_foldl now existing h

/-! ## The accepted writes -/

/-- The status writes that the server has accepted, oldest first, as it has
stored them. -/
abbrev Trail := List Redkey

namespace Trail

variable {t : Trail} {r r' stored : Redkey}

/-- The server notes what it has stored. -/
def note : (c : Call) → Resp c → Trail → Trail
  | .updateRedkeyStatus _, .ok stored, t => t ++ [stored]
  | _, _, t => t

/-- The last write that went into this version of the Redkey. Resource
versions grow with every write. -/
def lastSeen (t : Trail) (r : Redkey) : Option Redkey :=
  (t.filter fun w => w.resourceVersion ≤ r.resourceVersion).getLast?

/-- That write, if there was one, does not mirror a Ready config. -/
def Unready (t : Trail) (r : Redkey) : Prop := ∀ w ∈ t.lastSeen r, w.status.status ≠ .ready

instance : Decidable (t.Unready r) := inferInstanceAs (Decidable (∀ w ∈ t.lastSeen r, _))

/-- An earlier version of the Redkey has not seen a new write. -/
theorem lastSeen_append_of_lt (h : r.resourceVersion < stored.resourceVersion) :
    lastSeen (t ++ [stored]) r = t.lastSeen r := by
  simp [lastSeen, List.filter_append, not_le.mpr h]

/-- The last write of the version it has made is the write itself. -/
theorem lastSeen_append_self : lastSeen (t ++ [stored]) stored = some stored := by
  simp [lastSeen, List.filter_append]

/-- Two versions that have seen every write have seen the same last one. -/
theorem lastSeen_eq (h : ∀ w ∈ t, w.resourceVersion ≤ r.resourceVersion)
    (h' : ∀ w ∈ t, w.resourceVersion ≤ r'.resourceVersion) : t.lastSeen r = t.lastSeen r' := by
  have hfilter : ∀ r : Redkey, (∀ w ∈ t, w.resourceVersion ≤ r.resourceVersion) →
      t.filter (fun w => w.resourceVersion ≤ r.resourceVersion) = t :=
    fun r h => List.filter_eq_self.mpr fun w hw => decide_eq_true (h w hw)
  rw [lastSeen, lastSeen, hfilter r h, hfilter r' h']

/-- So the new write does not matter to an earlier version. -/
theorem unready_append_of_lt (h : r.resourceVersion < stored.resourceVersion) :
    Unready (t ++ [stored]) r ↔ t.Unready r := by
  rw [Unready, Unready, lastSeen_append_of_lt h]

end Trail

/-! ## The invariant -/

/-- A version of the Redkey, not later than `live`, lists its conditions
without repetition, and says nothing about health unless the last write that
went into it mirrors a Ready config. -/
structure Accounted (t : Trail) (live r : Redkey) : Prop where
  notLater : r.resourceVersion ≤ live.resourceVersion
  unique : UniqueTypes r.status.conditions
  silent : t.Unready r → Silent r.status.conditions

/-- The live Redkey may move on, by an edit -/
theorem Accounted.edit {t : Trail} {live r : Redkey} (h : Accounted t live r) (spec : RedkeySpec) :
    Accounted t (live.edit spec) r :=
  { h with notLater := Nat.le_succ_of_le h.notLater }

/-- A status write accounts for one more version, which earlier ones do not
see. -/
theorem Accounted.append {t : Trail} {live stored r : Redkey} (h : Accounted t live r)
    (hstored : stored.resourceVersion = live.resourceVersion + 1) :
    Accounted (t ++ [stored]) stored r := by
  have hlt : r.resourceVersion < stored.resourceVersion := by
    have hle := h.notLater
    omega
  refine ⟨hlt.le, h.unique, ?_⟩
  rw [Trail.unready_append_of_lt hlt]
  exact h.silent

/-- When there is nothing left to scale down, the last write that went into
the Redkey that the reconcile started from does not mirror a Ready config. -/
def Memory.Cleared (t : Trail) (m : Memory) (items : List RedkeyConfig) : Prop :=
  ∀ cluster ∈ m.snapshot, cluster.spec.primaries = 0 → ScaledDown items → t.Unready cluster

/-- The condition of the runs, on the answers to `listConfigs`. Other answers
are not restricted. -/
def ClearedAnswer (t : Trail) (m : Memory) : (c : Call) → Resp c → Prop
  | .listConfigs _ _ _ .listConfigs, .ok items => m.Cleared t items
  | _, _ => True

instance (items : List RedkeyConfig) : Decidable (ScaledDown items) :=
  inferInstanceAs (Decidable (items = [] ∨ ∃ c ∈ items, _))

instance (t : Trail) (m : Memory) (items : List RedkeyConfig) : Decidable (m.Cleared t items) :=
  inferInstanceAs (Decidable (∀ cluster ∈ m.snapshot, _ → _ → t.Unready cluster))

instance (t : Trail) (m : Memory) : (c : Call) → (r : Resp c) → Decidable (ClearedAnswer t m c r)
  | .listConfigs _ _ _ .listConfigs, .ok items => inferInstanceAs (Decidable (m.Cleared t items))
  | .listConfigs _ _ _ .listConfigs, .error _ => .isTrue trivial
  | .listConfigs _ _ _ .deleteAllConfigs, _ => .isTrue trivial
  | .getRedkey .., _ => .isTrue trivial
  | .updateRedkeyStatus _, _ => .isTrue trivial
  | .createConfig _, _ => .isTrue trivial
  | .deleteConfig _, _ => .isTrue trivial
  | .get .., _ => .isTrue trivial
  | .create .., _ => .isTrue trivial
  | .patch .., _ => .isTrue trivial
  | .delete .., _ => .isTrue trivial
  | .metric _, _ => .isTrue trivial

/-- What is known of the Redkey's versions, and of what the running reconcile
has read. `m.redkeys` and `m.configs` are what it has read since it started,
`m.listed` is the list that it decides from. -/
structure Tidy (v : View) (t : Trail) (m : Memory) : Prop where
  /-- Every accepted write has gone into the live Redkey. -/
  writes : ∀ w ∈ t, w.resourceVersion ≤ v.redkey.live.resourceVersion
  versions : ∀ r ∈ v.redkey.versions, Accounted t v.redkey.live r
  snapshot : ∀ r ∈ m.snapshot, Accounted t v.redkey.live r
  redkeys : ∀ r ∈ m.redkeys, UniqueTypes r.status.conditions
  configs : ∀ items ∈ m.listed, ∀ c ∈ items, c ∈ m.configs
  /-- The condition of the runs, for the list that was read. -/
  cleared : ∀ items ∈ m.listed, m.Cleared t items

namespace Tidy

variable {v v' : View} {t : Trail} {m : Memory} {c : Call} {written stored : Redkey}

/-- With nothing left to scale down, the snapshot says nothing about
health. -/
theorem silent {cluster : Redkey} {items : List RedkeyConfig} (h : Tidy v t m)
    (hsnapshot : m.snapshot = some cluster) (hzero : cluster.spec.primaries = 0)
    (hlisted : m.listed = some items) (hdone : ScaledDown items) :
    Silent cluster.status.conditions := by
  have hunready := h.cleared items hlisted cluster hsnapshot hzero hdone
  exact (h.snapshot cluster hsnapshot).silent hunready

/-- Both writes are sound: the first takes its verdicts from a config that was
read, the second repeats a status that says nothing. -/
theorem published (h : Tidy v t m) (hwrites : m.Writes written) :
    Published m.configs written.status.conditions := by
  cases hwrites with
  | @aggregated cluster latest active now hsnapshot hlatest hactive =>
      exact published_aggregateConditions hactive now (h.redkeys latest hlatest)
  | @scaledToZero cluster items now hsnapshot hzero hlisted hdone =>
      have hsilent := h.silent hsnapshot hzero hlisted hdone
      exact (silent_scaledToZeroConditions now hsilent).published m.configs

theorem unique_of_writes (h : Tidy v t m) (hwrites : m.Writes written) :
    UniqueTypes written.status.conditions := by
  cases hwrites with
  | @aggregated cluster latest active now hsnapshot hlatest hactive =>
      exact (aggregated_aggregateConditions now active (h.redkeys latest hlatest)).unique
  | @scaledToZero cluster items now hsnapshot hzero hlisted hdone =>
      exact uniqueTypes_scaledToZeroConditions now (h.snapshot cluster hsnapshot).unique

/-- A write that does not mirror a Ready config leaves no verdict behind. -/
theorem silent_of_writes (h : Tidy v t m) (hwrites : m.Writes written)
    (hstatus : written.status.status ≠ .ready) : Silent written.status.conditions := by
  cases hwrites with
  | @aggregated cluster latest active now hsnapshot hlatest hactive =>
      exact silent_aggregateConditions hstatus now (h.redkeys latest hlatest)
  | @scaledToZero cluster items now hsnapshot hzero hlisted hdone =>
      exact silent_scaledToZeroConditions now (h.silent hsnapshot hzero hlisted hdone)

/-- The server accepts a status write: it is the last one of the new version,
and earlier versions do not see it. -/
theorem accept (h : Tidy v t m) (hwrites : m.Writes written)
    (hstored : v.redkey.live.writeStatus written = .ok stored) :
    Tidy { v with redkey := v.redkey.commit stored } (t ++ [stored]) m := by
  obtain ⟨-, hstored⟩ := Redkey.writeStatus_ok hstored
  have hversion : stored.resourceVersion = v.redkey.live.resourceVersion + 1 := by
    rw [hstored]
  have hstatus : stored.status = written.status := by
    rw [hstored]
  refine ⟨?_, ?_, ?_, h.redkeys, h.configs, ?_⟩
  · -- the new write is the last one
    intro w hw
    change w.resourceVersion ≤ stored.resourceVersion
    rcases List.mem_append.mp hw with hold | hnew
    · have hle := h.writes w hold
      omega
    · rw [List.mem_singleton.mp hnew]
  · intro r hr
    rcases Lag.mem_versions_commit.mp hr with hold | rfl
    · exact (h.versions r hold).append hversion
    · -- the new version is what was written
      refine ⟨le_refl _, hstatus ▸ h.unique_of_writes hwrites, ?_⟩
      intro hunready
      have hlast := hunready r Trail.lastSeen_append_self
      rw [hstatus] at hlast ⊢
      exact h.silent_of_writes hwrites hlast
  · exact fun r hr => (h.snapshot r hr).append hversion
  · -- the snapshot is an earlier version
    intro items hitems cluster hcluster hzero hdone
    have hlt : cluster.resourceVersion < stored.resourceVersion := by
      have hle := (h.snapshot cluster hcluster).notLater
      omega
    rw [Trail.unready_append_of_lt hlt]
    exact h.cleared items hitems cluster hcluster hzero hdone

/-- A step of the user or of Robin. -/
theorem env (h : Tidy v t m) (hstep : View.Env v v') : Tidy v' t m := by
  cases hstep with
  | userUpdate spec _ =>
      have hwrites : ∀ w ∈ t, w.resourceVersion ≤ (v.redkey.live.edit spec).resourceVersion :=
        fun w hw => Nat.le_succ_of_le (h.writes w hw)
      refine { h with writes := hwrites, versions := ?_, snapshot := ?_ }
      · intro r hr
        rcases Lag.mem_versions_commit.mp hr with hold | rfl
        · exact (h.versions r hold).edit spec
        · -- the edit keeps the status, and has seen the same writes
          have hlive := h.versions v.redkey.live Lag.live_mem
          have hseen := Trail.lastSeen_eq hwrites h.writes
          refine ⟨le_refl _, hlive.unique, ?_⟩
          intro hunready
          rw [Trail.Unready, hseen] at hunready
          exact hlive.silent hunready
      · exact fun r hr => (h.snapshot r hr).edit spec
  | robinWrite key status => exact { h with }

/-- A call that does not write the status reads the Redkey at most. -/
theorem read (h : Tidy v t m) (hread : v.redkey.Read v'.redkey) : Tidy v' t m := by
  have hlive : v'.redkey.live = v.redkey.live := hread.1
  refine { h with writes := ?_, versions := ?_, snapshot := ?_ }
  · rw [hlive]
    exact h.writes
  · rw [hlive]
    exact fun r hr => h.versions r (hread.mem hr)
  · rw [hlive]
    exact h.snapshot

/-- A call that reaches the server. -/
theorem exec {r : Resp c} (h : Tidy v t m) (hallows : m.Allows c) (hexec : View.exec c v r v') :
    Tidy v' (t.note c r) m := by
  have hstep := View.redkeyStep hexec
  cases c with
  | updateRedkeyStatus written =>
      obtain ⟨rfl, rfl⟩ := hexec
      cases hstored : v.redkey.live.writeStatus written with
      | error e => exact h
      | ok stored => exact h.accept hallows hstored
  | getRedkey key site =>
      generalize hl : v'.redkey = l at hstep
      cases hstep with
      | same => exact h.read (hl ▸ v.redkey.read_pick false)
      | read hread => exact h.read (hl ▸ hread)
  | _ =>
      generalize hl : v'.redkey = l at hstep
      cases hstep with
      | same => exact h.read (hl ▸ v.redkey.read_pick false)

theorem note {r : Resp c} (h : Tidy v t m) (hr : Reads (· ∈ v.redkey.versions) c r)
    (hcleared : ClearedAnswer t m c r) : Tidy v t (m.note c r) := by
  unfold Memory.note
  split
  · -- a new reconcile starts from a version of the Redkey, and has listed nothing
    refine ⟨h.writes, h.versions, ?_, fun _ hx => absurd hx List.not_mem_nil, ?_, ?_⟩
    · rintro _ ⟨⟩
      exact h.versions _ hr
    · rintro _ ⟨⟩
    · rintro _ ⟨⟩
  · refine ⟨h.writes, h.versions, ?_, fun _ hx => absurd hx List.not_mem_nil, ?_, ?_⟩ <;>
      rintro _ ⟨⟩
  · refine { h with redkeys := ?_ }
    simpa [or_imp, forall_and] using ⟨h.redkeys, (h.versions _ hr).unique⟩
  · -- the list that decides
    refine { h with configs := ?_, cleared := ?_ }
    · -- what was listed has been read
      rintro _ ⟨⟩ c hc
      exact List.mem_append_right _ hc
    · rintro _ ⟨⟩
      exact hcleared
  · refine { h with configs := ?_ }
    exact fun items hitems c hc => List.mem_append_left _ (h.configs items hitems c hc)
  · exact h

end Tidy

/-! ## Runs -/

/-- The lagging system with the writes it has accepted and the memory of the
running reconcile. -/
abbrev Trailed := (Lagging × Trail) × Memory

/-- Its runs; any request may be lost. What the server accepts is noted by the
server, so also when the reply is lost. -/
def trailedRuns (fill : Deployment → Deployment) : Sem Call Resp Trailed :=
  (((lagging fill).withHistory (fun _ t => t) fun c r _ => Trail.note c r).lossy lost).withHistory
    (fun _ m => m) fun c r _ => Memory.note c r

/-- Those in which, between the last aggregation of a Ready config and a
scaled-to-zero status, the operator has published one that was not Ready. -/
def clearedRuns (fill : Deployment → Deployment) : Sem Call Resp Trailed :=
  (trailedRuns fill).guarded (fun c x r => ClearedAnswer x.1.2 x.2 c r) fun _ _ => True

/-- A new Redkey, without configs and without a verdict, and nothing
running. -/
structure Trailed.Init (key : NamespacedName) (x : Trailed) : Prop where
  init : x.1.1.view.Init key
  unique : UniqueTypes x.1.1.view.snapshot.status.conditions
  silent : Silent x.1.1.view.snapshot.status.conditions
  trail : x.1.2 = []
  memory : x.2 = {}

theorem Trailed.Init.tidy {key : NamespacedName} {x : Trailed} (h : Trailed.Init key x) :
    Tidy x.1.1.view x.1.2 x.2 := by
  obtain ⟨⟨s, t⟩, m⟩ := x
  obtain ⟨hinit, hunique, hsilent, rfl, rfl⟩ := h
  have hversions : ∀ r ∈ s.view.redkey.versions, r = s.view.snapshot := by
    intro r hr
    rw [hinit.redkey] at hr
    simpa [Lag.versions] using hr
  refine ⟨fun _ hw => absurd hw List.not_mem_nil, ?_, ?_, fun _ hx => absurd hx List.not_mem_nil,
    ?_, ?_⟩
  · intro r hr
    have hlive := hversions s.view.redkey.live Lag.live_mem
    obtain rfl := hversions r hr
    have hle := le_of_eq (congrArg Redkey.resourceVersion hlive.symm)
    exact ⟨hle, hunique, fun _ => hsilent⟩
  · rintro _ ⟨⟩
  · rintro _ ⟨⟩
  · rintro _ ⟨⟩

section Runs

variable {fill : Deployment → Deployment} {key : NamespacedName}

/-- A call of a reconcile writes what its memory allows. -/
theorem allows_of_clearedRuns {init : Trailed → Prop} {x : Trailed} {c : Call}
    {k : Resp c → Rec Result}
    (hm : Reachable (clearedRuns fill) (Reconciles key) init ⟨x, some (.call c k)⟩) (r : Resp c) :
    x.2.Allows c := by
  have hproj : Sem.Projects id (clearedRuns fill) (trailedRuns fill) :=
    ⟨fun _ _ h => h.2, fun _ _ _ _ h => h.2⟩
  exact Reachable.remembers (fun _ hp => reconcile_writes hp)
    (hproj.reachable (fun _ h => h) hm) r

theorem tidy_of_clearedRuns {m : Machine Call Resp (Except Err Result) Trailed}
    (hm : Reachable (clearedRuns fill) (Reconciles key) (Trailed.Init key) m) :
    Tidy m.shared.1.1.view m.shared.1.2 m.shared.2 := by
  refine Reachable.invariant (J := fun x => Tidy x.1.1.view x.1.2 x.2)
    (P := fun c x => x.2.Allows c) (fun _ h => h.tidy) ?_ (fun x c k hm r =>
      allows_of_clearedRuns hm r) ?_ hm
  · -- the environment notes nothing
    rintro x y ⟨-, ⟨⟨hstep, -⟩, htrail⟩, hmem⟩ htidy
    rw [hmem, htrail]
    exact htidy.env hstep
  · rintro c x r y hallows htidy ⟨hcleared, hexec, hmem⟩
    rw [hmem]
    -- a lost reply is noted as such, whatever the server has done
    rcases hexec with ⟨⟨hexec, -⟩, htrail⟩ | ⟨rfl, heq | ⟨r₀, ⟨hexec, -⟩, htrail⟩⟩
    · rw [htrail]
      refine (htidy.exec hallows hexec).note (View.exec_reads hexec) ?_
      cases c <;> trivial
    · rw [heq]
      exact htidy.note (by cases c <;> trivial) hcleared
    · rw [htrail]
      exact (htidy.exec hallows hexec).note (by cases c <;> trivial) (by cases c <;> trivial)

/-- Every health condition in a status that is about to be written is
`Unknown` or the verdict of a settled config that the reconcile has read. -/
theorem verdicts_published (fill : Deployment → Deployment) (key : NamespacedName) {s : Lagging}
    {t : Trail} {m : Memory} {written : Redkey}
    {k : Resp (.updateRedkeyStatus written) → Rec Result}
    (hm : Reachable (clearedRuns fill) (Reconciles key) (Trailed.Init key)
      ⟨((s, t), m), some (.call (.updateRedkeyStatus written) k)⟩) :
    Published m.configs written.status.conditions :=
  (tidy_of_clearedRuns hm).published (allows_of_clearedRuns hm (lost _))

end Runs

/-! ### Two runs

A cluster becomes healthy, and its status says so; then its user goes to zero. In one run a
reconcile sees Robin at work on that, so that the status says nothing about health any more when
the cluster is torn down. In the other one Robin is done before the cluster is reconciled again. The
next reconcile deletes everything; the one after it finds no config at all, and publishes the health
of the cluster once more. -/

/-- Answers that are up to date. -/
def Trailed.answer (c : Call) (x : Trailed) : Resp c × Trailed :=
  let (r, s) := x.1.1.answer id true c
  (r, ((s, x.1.2.note c r), x.2.note c r))

/-- A reconcile, up to its `n`-th call. -/
def Trailed.reconciling (n : ℕ) (x : Trailed) : Machine Call Resp (Except Err Result) Trailed :=
  Machine.advance Trailed.answer n
    ⟨x, some (reconcile { resyncInterval := 60 } 7 sampleCluster.key)⟩

/-- A whole reconcile. -/
def Trailed.reconciled (x : Trailed) : Trailed := (x.reconciling 30).shared

/-- Its user edits the spec. -/
def Trailed.edited (spec : RedkeySpec) (x : Trailed) : Trailed :=
  ((x.1.1.edited spec, x.1.2), x.2)

/-- Robin reports on a config. -/
def Trailed.reported (name : String) (status : RedkeyConfigStatus) (x : Trailed) : Trailed :=
  ((x.1.1.reported ⟨"cache", name⟩ status, x.1.2), x.2)

/-- What Robin says about a config it has applied. -/
def goodHealth : RedkeyConfigStatus where
  configPhase := .applied
  status := .ready
  conditions := [{ type := "Healthy", status := .conditionTrue, reason := "AllNodesUp" }]

/-- A new cluster. -/
def newCluster : Trailed := ((Lagging.initial sampleCluster, []), {})

/-- It is in good health, and its user has gone to zero. -/
def goingToZero : Trailed :=
  (newCluster.reconciled.reported "c-1" goodHealth).reconciled.edited { primaries := 0 }

/-- Robin is at work on that. -/
def scalingDown : Trailed :=
  goingToZero.reconciled.reported "c-2" { configPhase := .inProgress, status := .scalingToZero }

/-- The write at the end of a teardown that was seen coming. -/
def clearedWrite : Machine Call Resp (Except Err Result) Trailed :=
  (scalingDown.reconciled.reported "c-2"
    { configPhase := .applied, status := .ready }).reconciling 9

/-- The write of the reconcile after a teardown that was not. -/
def staleWrite : Machine Call Resp (Except Err Result) Trailed :=
  (goingToZero.reconciled.reported "c-2"
    { configPhase := .applied, status := .ready }).reconciled.reconciling 2

namespace Trailed

variable {M : Sem Call Resp Trailed} {x : Trailed}

/-- What a run of the sample cluster leads to. -/
abbrev Reached (M : Sem Call Resp Trailed) (m : Machine Call Resp (Except Err Result) Trailed) :
    Prop :=
  Reachable M (Reconciles sampleCluster.key) (Trailed.Init sampleCluster.key) m

/-- Both runs start from a new cluster. -/
theorem reached_newCluster : Reached M ⟨newCluster, none⟩ :=
  Reachable.idle ⟨Lagging.initial_init (by decide), by unfold UniqueTypes; decide, by decide,
    rfl, rfl⟩

/-- What is answered is noted on both sides. -/
theorem answer_exec (c : Call) (x : Trailed) :
    (trailedRuns id).exec c x (x.answer c).1 (x.answer c).2 :=
  ⟨Or.inl ⟨Lagging.answer_exec id true c x.1.1, rfl⟩, rfl⟩

/-- The answer meets the condition of the runs. -/
def clears (c : Call) (x : Trailed) : Bool := decide (ClearedAnswer x.1.2 x.2 c (x.answer c).1)

theorem Reached.reconciling (hx : Reached (trailedRuns id) ⟨x, none⟩) (n : ℕ) :
    Reached (trailedRuns id) (x.reconciling n) :=
  (hx.start ⟨_, _, rfl⟩).advance (fun _ _ => true) (fun c x _ => answer_exec c x) n
    fun p _ => Prog.checks_true _ n p _

/-- A reconcile that meets the condition of the runs. -/
theorem Reached.clearing (hx : Reached (clearedRuns id) ⟨x, none⟩) (n : ℕ)
    (hclears : Prog.checks Trailed.answer clears n
      (reconcile { resyncInterval := 60 } 7 sampleCluster.key) x = true) :
    Reached (clearedRuns id) (x.reconciling n) := by
  refine (hx.start ⟨_, _, rfl⟩).advance clears (fun c x h => ⟨of_decide_eq_true h, answer_exec c x⟩)
    n ?_
  rintro p ⟨⟩
  exact hclears

end Trailed

theorem Trailed.edited_env (spec : RedkeySpec) (x : Trailed)
    (hrange : Decimal.InInt64 (x.1.1.view.redkey.live.generation + 1)) :
    (trailedRuns id).env x (x.edited spec) :=
  ⟨⟨⟨.userUpdate spec hrange, rfl⟩, rfl⟩, rfl⟩

theorem Trailed.reported_env (name : String) (status : RedkeyConfigStatus) (x : Trailed) :
    (trailedRuns id).env x (x.reported name status) :=
  ⟨⟨⟨.robinWrite _ status, rfl⟩, rfl⟩, rfl⟩

/-- A reconcile has published the status of a config that is not Ready before
the teardown. -/
theorem clearedWrite_reachable : Trailed.Reached (clearedRuns id) clearedWrite := by
  have hnew := Trailed.Reached.clearing Trailed.reached_newCluster 30 (by decide +kernel)
  have hhealthy := Trailed.Reached.clearing ((hnew.finish (by decide +kernel)).env
    ⟨trivial, Trailed.reported_env "c-1" goodHealth _⟩) 30 (by decide +kernel)
  have hgoing := Trailed.Reached.clearing ((hhealthy.finish (by decide +kernel)).env
    ⟨trivial, Trailed.edited_env { primaries := 0 } _ (by decide +kernel)⟩) 30 (by decide +kernel)
  have hscaling := Trailed.Reached.clearing ((hgoing.finish (by decide +kernel)).env
    ⟨trivial, Trailed.reported_env "c-2"
      { configPhase := .inProgress, status := .scalingToZero } _⟩) 30 (by decide +kernel)
  exact Trailed.Reached.clearing ((hscaling.finish (by decide +kernel)).env
    ⟨trivial, Trailed.reported_env "c-2" { configPhase := .applied, status := .ready } _⟩) 9
    (by decide +kernel)

/-- The teardown's status, after one that said the cluster was healthy. -/
theorem verdicts_of_clearedWrite :
    ∃ written, nextWrite clearedWrite.thread = some written ∧ written.spec.primaries = 0 ∧
      (∃ w ∈ clearedWrite.shared.1.2, w.status.status = .ready ∧ ¬ Silent w.status.conditions) ∧
      Published clearedWrite.shared.2.configs written.status.conditions := by
  have hfacts : (nextWrite clearedWrite.thread).any (fun r => r.spec.primaries = 0 &&
      clearedWrite.shared.1.2.any fun w =>
        decide (w.status.status = .ready ∧ ¬ Silent w.status.conditions)) = true := by
    decide +kernel
  obtain ⟨written, hwritten, htrue⟩ := (Option.any_eq_true _ _).mp hfacts
  rw [Bool.and_eq_true, decide_eq_true_eq, List.any_eq_true] at htrue
  obtain ⟨hzero, w, hw, hready⟩ := htrue
  obtain ⟨k, -, hm⟩ := reachable_nextWrite clearedWrite_reachable hwritten
  exact ⟨written, hwritten, hzero, ⟨w, hw, of_decide_eq_true hready⟩,
    verdicts_published id sampleCluster.key hm⟩

theorem staleWrite_reachable : Trailed.Reached (trailedRuns id) staleWrite := by
  have hnew := Trailed.Reached.reconciling Trailed.reached_newCluster 30
  have hhealthy := Trailed.Reached.reconciling ((hnew.finish (by decide +kernel)).env
    (Trailed.reported_env "c-1" goodHealth _)) 30
  have hgoing := Trailed.Reached.reconciling ((hhealthy.finish (by decide +kernel)).env
    (Trailed.edited_env { primaries := 0 } _ (by decide +kernel))) 30
  have hgone := Trailed.Reached.reconciling ((hgoing.finish (by decide +kernel)).env
    (Trailed.reported_env "c-2" { configPhase := .applied, status := .ready } _)) 30
  exact Trailed.Reached.reconciling (hgone.finish (by decide +kernel)) 2

/-- The write that publishes a health verdict without any config: it is not a
conflict. -/
theorem stale_verdict_published :
    ∃ (x : Trailed) (written : Redkey) (k : Resp (.updateRedkeyStatus written) → Rec Result),
      Reachable (trailedRuns id) (Reconciles sampleCluster.key) (Trailed.Init sampleCluster.key)
        ⟨x, some (.call (.updateRedkeyStatus written) k)⟩ ∧
      (∃ stored, x.1.1.view.redkey.live.writeStatus written = .ok stored) ∧
      x.2.configs = [] ∧ ¬ Published x.2.configs written.status.conditions := by
  -- one evaluation of the run shows everything that is needed of it
  have hfacts : (nextWrite staleWrite.thread).any (fun r =>
      r.resourceVersion == staleWrite.shared.1.1.view.redkey.live.resourceVersion &&
      staleWrite.shared.2.configs.isEmpty && r.status.conditions.any fun c =>
        decide (c.type = "Healthy" ∧ c.status = .conditionTrue)) = true := by decide +kernel
  obtain ⟨written, hwritten, htrue⟩ := (Option.any_eq_true _ _).mp hfacts
  simp only [Bool.and_eq_true, beq_iff_eq, List.isEmpty_iff] at htrue
  obtain ⟨⟨hversion, hnone⟩, hhealthy⟩ := htrue
  obtain ⟨k, -, hm⟩ := reachable_nextWrite staleWrite_reachable hwritten
  refine ⟨staleWrite.shared, written, k, hm, ⟨_, if_pos hversion.symm⟩, hnone, ?_⟩
  rw [hnone]
  intro hpublished
  obtain ⟨c, hc, htype, hstatus⟩ : ∃ c ∈ written.status.conditions,
      c.type = "Healthy" ∧ c.status = .conditionTrue := by
    simpa using hhealthy
  rcases hpublished c hc (htype ▸ by decide) with hunknown | ⟨config, hconfig, -⟩
  · rw [hstatus] at hunknown
    cases hunknown
  · cases hconfig

end RedkeyOperator
