import RedkeyOperator.Controller.ScaleZero

/-!
# The published conditions

The operator sets its conditions one after another, in the list that is already there. Each of
them changes the first condition of its type or is appended, so setting conditions of different
types (`findStatusCondition_foldl`) comes down to one update per type. What is published for a
config is `statusConditions`, over the conditions of other types.
-/

namespace RedkeyOperator

/-! ## Setting one condition -/

/-- A condition that was set, over the one that was there. Only the transition
time depends on the old one. -/
def Condition.after (now : Time) (old : Option Condition) (new : Condition) : Condition :=
  match old with
  | some old => old.update now new
  | none => { new with lastTransitionTime := now }

/-- It is the new one up to its transition time. -/
theorem Condition.after_eq (now : Time) (old : Option Condition) (new : Condition) :
    ∃ time, Condition.after now old new = { new with lastTransitionTime := time } := by
  cases old with
  | none => exact ⟨now, rfl⟩
  | some old => exact ⟨_, rfl⟩

theorem findStatusCondition_cons (c : Condition) (conditions : List Condition) (type : String) :
    findStatusCondition (c :: conditions) type =
      if c.type = type then some c else findStatusCondition conditions type := by
  unfold findStatusCondition
  by_cases h : c.type = type <;> simp [h]

/-- A condition that was set is found under its type, and under the others
nothing has changed. -/
theorem findStatusCondition_setStatusCondition (now : Time) (conditions : List Condition)
    (new : Condition) (type : String) :
    findStatusCondition (setStatusCondition now conditions new) type =
      if new.type = type then some (Condition.after now (findStatusCondition conditions type) new)
      else findStatusCondition conditions type := by
  -- along the list, as `setStatusCondition` walks through it
  induction conditions with
  | nil => simp [setStatusCondition, findStatusCondition, Condition.after]
  | cons c cs ih =>
      by_cases hc : c.type = new.type
      · -- this is the one that is updated
        rw [setStatusCondition, if_pos hc, findStatusCondition_cons, findStatusCondition_cons, hc]
        by_cases h : new.type = type <;> simp [h, Condition.update, Condition.after]
      · rw [setStatusCondition, if_neg hc, findStatusCondition_cons, findStatusCondition_cons, ih]
        by_cases h : c.type = type
        · have hne : new.type ≠ type := fun heq => hc (h.trans heq.symm)
          simp [h, hne]
        · simp [h]

/-- The types stay where they are; a new one comes last. -/
theorem map_type_setStatusCondition (now : Time) (conditions : List Condition) (new : Condition) :
    (setStatusCondition now conditions new).map Condition.type =
      if new.type ∈ conditions.map Condition.type then conditions.map Condition.type
      else conditions.map Condition.type ++ [new.type] := by
  induction conditions with
  | nil => rfl
  | cons c cs ih =>
      by_cases hc : c.type = new.type
      · simp [setStatusCondition, hc, Condition.update]
      · rw [setStatusCondition, if_neg hc, List.map_cons, ih, List.map_cons]
        by_cases hmem : new.type ∈ cs.map Condition.type
        · rw [if_pos hmem, if_pos (List.mem_cons_of_mem _ hmem)]
        · have hnot : new.type ∉ c.type :: cs.map Condition.type := by
            rw [List.mem_cons, not_or]
            exact ⟨Ne.symm hc, hmem⟩
          rw [if_neg hmem, if_neg hnot, List.cons_append]

/-- The other conditions stay as they are, in their order. -/
theorem filter_setStatusCondition (now : Time) (conditions : List Condition) {new : Condition}
    {p : String → Bool} (h : p new.type = false) :
    (setStatusCondition now conditions new).filter (fun c => p c.type) =
      conditions.filter fun c => p c.type := by
  induction conditions with
  | nil => simp [setStatusCondition, h]
  | cons c cs ih =>
      by_cases hc : c.type = new.type
      · simp [setStatusCondition, hc, Condition.update, h]
      · rw [setStatusCondition, if_neg hc, List.filter_cons, List.filter_cons, ih]

/-! ## Setting several conditions -/

/-- No two conditions have the same type. `setStatusCondition` would only ever
change the first of them. -/
def UniqueTypes (conditions : List Condition) : Prop := (conditions.map Condition.type).Nodup

theorem findStatusCondition_eq_none {conditions : List Condition} {type : String} :
    findStatusCondition conditions type = none ↔ type ∉ conditions.map Condition.type := by
  simp only [findStatusCondition, List.find?_eq_none, beq_iff_eq, List.mem_map, not_exists, not_and]

/-- Where no type comes twice, every condition is found. -/
theorem UniqueTypes.findStatusCondition {conditions : List Condition} (h : UniqueTypes conditions)
    {c : Condition} (hc : c ∈ conditions) :
    findStatusCondition conditions c.type = some c := by
  induction conditions with
  | nil => cases hc
  | cons d ds ih =>
      obtain ⟨hnew, hds⟩ := List.nodup_cons.mp h
      rw [findStatusCondition_cons]
      rcases List.mem_cons.mp hc with rfl | hmem
      · rw [if_pos rfl]
      · have hne : d.type ≠ c.type := fun heq => hnew (heq ▸ List.mem_map_of_mem hmem)
        rw [if_neg hne, ih hds hmem]

section Several

variable (now : Time) (conditions : List Condition) {news : List Condition}

/-- Conditions of different types do not get in each other's way. -/
theorem findStatusCondition_foldl (h : UniqueTypes news) (type : String) :
    findStatusCondition (news.foldl (setStatusCondition now) conditions) type =
      match findStatusCondition news type with
      | some new => some (Condition.after now (findStatusCondition conditions type) new)
      | none => findStatusCondition conditions type := by
  induction news generalizing conditions with
  | nil => rfl
  | cons new news ih =>
      -- none of those that follow has the type of this one
      obtain ⟨hnew, hnews⟩ := List.nodup_cons.mp h
      rw [List.foldl_cons, ih _ hnews, findStatusCondition_setStatusCondition,
        findStatusCondition_cons]
      by_cases htype : new.type = type
      · subst htype
        rw [if_pos rfl, if_pos rfl, findStatusCondition_eq_none.mpr hnew]
      · rw [if_neg htype, if_neg htype]

/-- No type comes twice after the update if none did before. -/
theorem uniqueTypes_foldl (h : UniqueTypes conditions) :
    UniqueTypes (news.foldl (setStatusCondition now) conditions) := by
  induction news generalizing conditions with
  | nil => exact h
  | cons new news ih =>
      refine ih _ ?_
      rw [UniqueTypes, map_type_setStatusCondition]
      split
      case isTrue => exact h
      case isFalse hnot => exact h.append (List.nodup_singleton _) (by simpa using hnot)

/-- Conditions of other types are not touched, in whatever order the new ones
are set. -/
theorem filter_foldl {p : String → Bool} (h : ∀ new ∈ news, p new.type = false) :
    (news.foldl (setStatusCondition now) conditions).filter (fun c => p c.type) =
      conditions.filter fun c => p c.type := by
  induction news generalizing conditions with
  | nil => rfl
  | cons new news ih =>
      rw [List.foldl_cons, ih _ fun c hc => h c (List.mem_cons_of_mem _ hc),
        filter_setStatusCondition now conditions (h new List.mem_cons_self)]

/-- A transition time moves with the status. -/
theorem lastTransitionTime_foldl (h : UniqueTypes news) (hconditions : UniqueTypes conditions)
    {c d : Condition} (hc : c ∈ conditions)
    (hd : d ∈ news.foldl (setStatusCondition now) conditions) (htype : d.type = c.type)
    (hstatus : d.status = c.status) : d.lastTransitionTime = c.lastTransitionTime := by
  have hfind := findStatusCondition_foldl now conditions h d.type
  rw [(uniqueTypes_foldl now conditions hconditions).findStatusCondition hd, htype,
    hconditions.findStatusCondition hc] at hfind
  split at hfind
  -- => it was set once more
  case h_1 new _ =>
    obtain rfl : d = c.update now new := Option.some.inj hfind
    have hsame : c.status = new.status := hstatus.symm
    simp [Condition.update, hsame]
  -- => it was left alone
  case h_2 =>
    obtain rfl : d = c := Option.some.inj hfind
    rfl

end Several

/-! ## Setting them once more -/

/-- The condition is there, up to its transition time: it is the first one of
its type and says the same. -/
def HasCondition (conditions : List Condition) (c : Condition) : Prop :=
  ∃ time, findStatusCondition conditions c.type = some { c with lastTransitionTime := time }

/-- What was set is there. -/
theorem hasCondition_foldl (now : Time) (conditions : List Condition) {news : List Condition}
    (h : UniqueTypes news) {c : Condition} (hc : c ∈ news) :
    HasCondition (news.foldl (setStatusCondition now) conditions) c := by
  have hfind := findStatusCondition_foldl now conditions h c.type
  rw [h.findStatusCondition hc] at hfind
  obtain ⟨time, htime⟩ := Condition.after_eq now (findStatusCondition conditions c.type) c
  exact ⟨time, hfind.trans (congrArg some htime)⟩

/-- Setting a condition that is there changes nothing. -/
theorem HasCondition.setStatusCondition_eq {conditions : List Condition} {c : Condition}
    (h : HasCondition conditions c) (now : Time) :
    setStatusCondition now conditions c = conditions := by
  rcases h with ⟨time, h⟩
  induction conditions with
  | nil => cases h
  | cons d ds ih =>
      rw [findStatusCondition_cons] at h
      by_cases hd : d.type = c.type
      · rw [if_pos hd, Option.some.injEq] at h
        simp [setStatusCondition, h, Condition.update]
      · rw [if_neg hd] at h
        rw [setStatusCondition, if_neg hd, ih h]

/-- Setting several conditions of different types once more changes
nothing. -/
theorem foldl_setStatusCondition_idem (now now' : Time) (conditions : List Condition)
    {news : List Condition} (h : UniqueTypes news) :
    news.foldl (setStatusCondition now') (news.foldl (setStatusCondition now) conditions) =
      news.foldl (setStatusCondition now) conditions := by
  have hall := fun c hc => hasCondition_foldl (c := c) now conditions h hc
  -- all that matters of the result is that the conditions are there
  generalize news.foldl (setStatusCondition now) conditions = done at hall
  clear h
  induction news with
  | nil => rfl
  | cons new news ih =>
      rw [List.foldl_cons, (hall new List.mem_cons_self).setStatusCondition_eq]
      exact ih fun c hc => hall c (List.mem_cons_of_mem _ hc)

/-! ## The conditions of a config -/

/-- Whatever Robin has reported, the condition is of the type that was asked
for. -/
theorem healthCondition_type (config : RedkeyConfig) (condType : String) :
    (healthCondition config condType).type = condType := by
  unfold healthCondition
  dsimp only
  split
  · split <;> rfl
  · rfl

/-- The conditions that mirror a config, in the order in which they are
set. -/
def statusConditions (config : RedkeyConfig) : List Condition :=
  [{ type := "Ready", status := conditionStatus (isConfigReady config)
     reason := "StatusAggregated" },
   { type := "ConfigPending"
     status := conditionStatus (!isTerminalConfigPhase config.status.configPhase)
     reason := "StatusAggregated" },
   { type := "Error", status := conditionStatus (hasConfigError config)
     reason := "StatusAggregated" }] ++ healthConditionTypes.map (healthCondition config)

/-- Their types, which are those the operator manages while there are
primaries. -/
def managedTypes : List String := ["Ready", "ConfigPending", "Error"] ++ healthConditionTypes

theorem map_type_statusConditions (config : RedkeyConfig) :
    (statusConditions config).map Condition.type = managedTypes := by
  simp [statusConditions, managedTypes, healthConditionTypes, healthCondition_type]

theorem uniqueTypes_statusConditions (config : RedkeyConfig) :
    UniqueTypes (statusConditions config) := by
  rw [UniqueTypes, map_type_statusConditions]
  decide

section Aggregate

variable (now : Time) (existing : List Condition) (config : RedkeyConfig)

/-- The conditions are set one after another, Robin's last. -/
theorem aggregateConditions_eq :
    aggregateConditions now existing config =
      (statusConditions config).foldl (setStatusCondition now) existing := by
  simp [aggregateConditions, aggregateHealthConditions, statusConditions, List.foldl_map]

/-- A second reconcile of the same config changes no condition, at whatever
time it comes. -/
theorem aggregateConditions_idem (now' : Time) :
    aggregateConditions now' (aggregateConditions now existing config) config =
      aggregateConditions now existing config := by
  simp only [aggregateConditions_eq]
  exact foldl_setStatusCondition_idem now now' existing (uniqueTypes_statusConditions config)

/-- A condition of a managed type does not depend on what was there, except
for its transition time. -/
theorem hasCondition_aggregateConditions {c : Condition} (hc : c ∈ statusConditions config) :
    HasCondition (aggregateConditions now existing config) c := by
  rw [aggregateConditions_eq]
  exact hasCondition_foldl now existing (uniqueTypes_statusConditions config) hc

/-- The conditions of other types stay as they are. -/
theorem filter_aggregateConditions :
    (aggregateConditions now existing config).filter (fun c => c.type ∉ managedTypes) =
      existing.filter fun c => c.type ∉ managedTypes := by
  rw [aggregateConditions_eq]
  refine filter_foldl now existing (p := fun type => type ∉ managedTypes) ?_
  intro new hnew
  have hmem : new.type ∈ managedTypes := by
    rw [← map_type_statusConditions config]
    exact List.mem_map_of_mem hnew
  simpa using hmem

/-- A condition that is there holds if its status is true. -/
theorem HasCondition.holds {conditions : List Condition} {c : Condition}
    (h : HasCondition conditions c) :
    conditionHolds conditions c.type = decide (c.status = .conditionTrue) := by
  obtain ⟨time, h⟩ := h
  simp [conditionHolds, h]

/-- The published `Ready` and `Error` are those of the config, without regard
to what was published before. -/
theorem conditionHolds_ready :
    conditionHolds (aggregateConditions now existing config) "Ready" = isConfigReady config := by
  have h := (hasCondition_aggregateConditions now existing config
    (c := { type := "Ready", status := conditionStatus (isConfigReady config)
            reason := "StatusAggregated" }) (by simp [statusConditions])).holds
  rw [h]
  cases isConfigReady config <;> rfl

theorem conditionHolds_error :
    conditionHolds (aggregateConditions now existing config) "Error" = hasConfigError config := by
  have h := (hasCondition_aggregateConditions now existing config
    (c := { type := "Error", status := conditionStatus (hasConfigError config)
            reason := "StatusAggregated" }) (by simp [statusConditions])).holds
  rw [h]
  cases hasConfigError config <;> rfl

/-- The published phase says what the active config says. -/
theorem computePhase_aggregateConditions :
    computePhaseFromConditions (aggregateConditions now existing config) =
      if hasConfigError config then .error else if isConfigReady config then .ready
      else .configuring := by
  rw [computePhaseFromConditions, conditionHolds_error, conditionHolds_ready]

end Aggregate

/-! ## The conditions of a cluster without primaries -/

/-- The conditions that are set, in their order. -/
def zeroConditions : List Condition :=
  [{ type := "Ready", status := .conditionTrue, reason := "ScaledToZero" },
   { type := "ConfigPending", status := .conditionFalse, reason := "ScaledToZero" },
   { type := "Error", status := .conditionFalse, reason := "ScaledToZero" }]

theorem uniqueTypes_zeroConditions : UniqueTypes zeroConditions := by
  unfold UniqueTypes
  decide

theorem scaledToZeroConditions_eq (now : Time) (existing : List Condition) :
    scaledToZeroConditions now existing =
      zeroConditions.foldl (setStatusCondition now) existing := rfl

theorem scaledToZeroConditions_idem (now now' : Time) (existing : List Condition) :
    scaledToZeroConditions now' (scaledToZeroConditions now existing) =
      scaledToZeroConditions now existing := by
  simp only [scaledToZeroConditions_eq]
  exact foldl_setStatusCondition_idem now now' existing uniqueTypes_zeroConditions

/-- The health conditions stay as they are. -/
theorem filter_scaledToZeroConditions (now : Time) (existing : List Condition) :
    (scaledToZeroConditions now existing).filter (fun c => c.type ∈ healthConditionTypes) =
      existing.filter fun c => c.type ∈ healthConditionTypes := by
  rw [scaledToZeroConditions_eq]
  exact filter_foldl now existing (p := fun type => type ∈ healthConditionTypes) (by decide)

/-! ## The phase -/

/-- `Error` and `Ready` are about terminal configs, and exclude each other. -/
theorem hasConfigError_iff {config : RedkeyConfig} : hasConfigError config = true ↔
    isTerminalConfigPhase config.status.configPhase = true ∧ config.status.status = .error := by
  simp [hasConfigError]

theorem isConfigReady_iff {config : RedkeyConfig} : isConfigReady config = true ↔
    isTerminalConfigPhase config.status.configPhase = true ∧ config.status.status ≠ .error := by
  simp [isConfigReady]

/-- The conditions of the managed types are set once, the others are left
alone. -/
structure Aggregated (existing result : List Condition) : Prop where
  unique : UniqueTypes result
  /-- Each of the operator's own comes once. -/
  managed : ∀ type ∈ managedTypes, result.countP (fun c => c.type = type) = 1
  /-- No cluster is ready and failed at the same time. -/
  exclusive : ¬ (conditionHolds result "Ready" = true ∧ conditionHolds result "Error" = true)
  unmanaged : result.filter (fun c => c.type ∉ managedTypes) =
    existing.filter fun c => c.type ∉ managedTypes
  /-- A transition time says when the status changed. -/
  times : ∀ c ∈ existing, ∀ d ∈ result, d.type = c.type →
    d.lastTransitionTime ≠ c.lastTransitionTime → d.status ≠ c.status

/-- It takes a list without repetitions, and leaves one. -/
theorem aggregated_aggregateConditions (now : Time) {existing : List Condition}
    (config : RedkeyConfig) (h : UniqueTypes existing) :
    Aggregated existing (aggregateConditions now existing config) := by
  have hunique : UniqueTypes (aggregateConditions now existing config) := by
    rw [aggregateConditions_eq]
    exact uniqueTypes_foldl now existing h
  refine {
    unique := hunique
    managed := ?managed
    exclusive := ?exclusive
    unmanaged := filter_aggregateConditions now existing config
    times := ?times }
  case managed =>
    -- every managed type is set by one of the conditions
    intro type htype
    obtain ⟨c, hc, rfl⟩ : ∃ c ∈ statusConditions config, c.type = type := by
      rw [← map_type_statusConditions config] at htype
      exact List.mem_map.mp htype
    obtain ⟨time, hfind⟩ := hasCondition_aggregateConditions now existing config hc
    have hmem : c.type ∈ (aggregateConditions now existing config).map Condition.type := by
      refine List.mem_map.mpr ⟨_, List.mem_of_find?_eq_some hfind, rfl⟩
    have hcount := List.count_eq_one_of_mem hunique hmem
    rw [List.count, List.countP_map] at hcount
    rw [← hcount]
    exact List.countP_congr fun d _ => by simp
  case exclusive =>
    -- one asks for the status `Error`, the other for any other
    rintro ⟨hready, herror⟩
    rw [conditionHolds_ready] at hready
    rw [conditionHolds_error] at herror
    exact (isConfigReady_iff.mp hready).2 (hasConfigError_iff.mp herror).2
  case times =>
    intro c hc d hd htype htime hstatus
    rw [aggregateConditions_eq] at hd
    have hnews := uniqueTypes_statusConditions config
    exact htime (lastTransitionTime_foldl now existing hnews h hc hd htype hstatus)

/-- The published phase is a function of the active config; the conditions
that were there before it have no part in it. -/
theorem published_phase_has_no_memory (config : RedkeyConfig) :
    (∀ now now' existing existing',
      computePhaseFromConditions (aggregateConditions now existing config) =
        computePhaseFromConditions (aggregateConditions now' existing' config)) ∧
    (∀ now existing,
      (computePhaseFromConditions (aggregateConditions now existing config) = .error ↔
        isTerminalConfigPhase config.status.configPhase = true ∧ config.status.status = .error) ∧
      (computePhaseFromConditions (aggregateConditions now existing config) = .ready ↔
        isTerminalConfigPhase config.status.configPhase = true ∧ config.status.status ≠ .error) ∧
      (computePhaseFromConditions (aggregateConditions now existing config) = .configuring ↔
        isTerminalConfigPhase config.status.configPhase = false)) ∧
    ∀ now existing, UniqueTypes existing →
      Aggregated existing (aggregateConditions now existing config) := by
  refine ⟨?_, ?_, fun now existing h => aggregated_aggregateConditions now config h⟩
  · intro now now' existing existing'
    rw [computePhase_aggregateConditions, computePhase_aggregateConditions]
  · intro now existing
    rw [computePhase_aggregateConditions, ← hasConfigError_iff, ← isConfigReady_iff]
    unfold hasConfigError isConfigReady
    cases isTerminalConfigPhase config.status.configPhase <;>
      by_cases herror : config.status.status = .error <;> simp [herror]

/-- A config that failed: Robin is done with it, and reports an error. -/
def failedConfig : RedkeyConfig :=
  { newConfig sampleCluster none with status := { configPhase := .applied, status := .error } }

/-- The conditions of the teardown do not show through, and one that the
operator does not know stays. -/
theorem published_phase_of_failedConfig :
    computePhaseFromConditions (aggregateConditions 7
      (scaledToZeroConditions 6 [{ type := "Paused", status := .conditionFalse }]) failedConfig) =
        .error ∧
    Aggregated (scaledToZeroConditions 6 [{ type := "Paused", status := .conditionFalse }])
      (aggregateConditions 7 (scaledToZeroConditions 6
        [{ type := "Paused", status := .conditionFalse }]) failedConfig) := by
  obtain ⟨-, hphase, haggregated⟩ := published_phase_has_no_memory failedConfig
  have hunique : UniqueTypes
      (scaledToZeroConditions 6 [{ type := "Paused", status := .conditionFalse }]) := by
    unfold UniqueTypes
    decide
  exact ⟨(hphase 7 _).1.mpr (by decide), haggregated 7 _ hunique⟩

end RedkeyOperator
