import RedkeyOperator.Controller.Metrics
import RedkeyOperator.Lib.Runs

/-!
# Operation accounting

The observations of one Redkey fall into runs of one in-operation status. The tracker is compared
with these runs:

* one call changes the entry of its own key and completes at most one operation (`apply_eq`);
* what the calls of one key leave behind is its open run (`unfinished_concat`), and what they
  complete are its ended ones (`completions_concat`);
* over all keys, the completions are those of each key, in some order (`exists_completed`);
* the gauge of running operations is written on its own and stays in step with the tracker
  (`showsOperation_run`).
-/

namespace RedkeyOperator

open Runs

/-! ## The runs of one key -/

/-- The in-operation status that the call reports. Unset, Ready and Error are
no operations. -/
def OpCall.operation : OpCall → Option ClusterStatus
  | .observe _ _ status _ =>
      if status = .unset ∨ status = .ready ∨ status = .error then none else some status
  | .forget _ => none

/-- An operation that ended, and how. -/
structure Completion where
  operation : ClusterStatus
  startedAt : Time
  endedAt : Time
  result : OperationResult
deriving DecidableEq, Repr

namespace Completion

/-- Its increment of the counter. -/
def increment (c : Completion) : ClusterStatus × OperationResult := (c.operation, c.result)

/-- Its sample of the duration. -/
def sample (c : Completion) : ClusterStatus × ℤ := (c.operation, (c.endedAt : ℤ) - c.startedAt)

end Completion

/-- The operation of a run, which starts with the first observation. -/
def runOperation : ClusterStatus × OpCall → Option ActiveOperation
  | (operation, .observe clock _ _ _) => some ⟨operation, clock.now⟩
  | (_, .forget _) => none

/-- How `call` ends the operation; a forget ends it silently. -/
def OpCall.ends (call : OpCall) (current : ActiveOperation) : Option Completion :=
  match call with
  | .forget _ => none
  | .observe clock _ status phase => some
      { operation := current.operation
        startedAt := current.startedAt
        endedAt := clock.since
        result :=
          if call.operation.isSome then .superseded
          else if status = .error ∨ phase = .error then .error
          else .success }

/-- The operation of the run that is still open. `openRun` and `endedRuns` cut
a list of calls into runs of one label. -/
def unfinished (calls : List OpCall) : Option ActiveOperation :=
  (openRun OpCall.operation calls).bind runOperation

/-- The operations of the runs that ended. -/
def completions (calls : List OpCall) : List Completion :=
  (endedRuns OpCall.operation calls).filterMap fun (run, call) => (runOperation run).bind call.ends

/-! ## One call -/

namespace OpCall

/-- The entry of the key after the call. -/
def next (call : OpCall) (current : Option ActiveOperation) : Option ActiveOperation :=
  if call.operation = current.map (·.operation) then current
  else call.operation.bind fun operation => runOperation (operation, call)

/-- The operation that the call completes. -/
def completes (call : OpCall) (current : Option ActiveOperation) : Option Completion :=
  if call.operation = current.map (·.operation) then none else current.bind call.ends

end OpCall

/-- The condition of the source, for an observation that reports no
operation -/
theorem operation_observe_eq_none {clock : Clock} {key : NamespacedName} {status : ClusterStatus}
    {phase : Phase} (h : ¬ (status ≠ .unset ∧ status ≠ .ready ∧ status ≠ .error)) :
    (OpCall.observe clock key status phase).operation = none := by
  grind [OpCall.operation]

theorem operation_observe_eq_some {clock : Clock} {key : NamespacedName} {status : ClusterStatus}
    {phase : Phase} (h : status ≠ .unset ∧ status ≠ .ready ∧ status ≠ .error) :
    (OpCall.observe clock key status phase).operation = some status := by
  grind [OpCall.operation]

/-- The call sees and changes only the entry of its key. It ends the operation
of the entry if it reports another one or none, and starts the one it
reports. -/
theorem apply_eq (t : OpTracker) (call : OpCall) :
    t.apply call =
      { active := Function.update t.active call.key (call.next (t.active call.key))
        duration := t.duration ++
          (call.completes (t.active call.key)).toList.map Completion.sample
        total := t.total ++
          (call.completes (t.active call.key)).toList.map Completion.increment } := by
  cases call with
  | forget key =>
      cases hactive : t.active key <;>
        simp [OpTracker.apply, OpTracker.forget, OpCall.next, OpCall.completes, OpCall.key,
          OpCall.operation, OpCall.ends, hactive]
  | observe clock key status phase =>
      simp only [OpTracker.apply, OpTracker.observe, OpCall.key]
      have hkeep : Function.update t.active key (t.active key) = t.active :=
        Function.update_eq_self key t.active
      by_cases hop : status ≠ .unset ∧ status ≠ .ready ∧ status ≠ .error
      · have hcall : (OpCall.observe clock key status phase).operation = some status :=
          operation_observe_eq_some hop
        cases hactive : t.active key with
        | none => simp [hop, OpCall.next, OpCall.completes, hcall, runOperation]
        | some current =>
            -- the same operation goes on, or another one supersedes it
            by_cases hsame : current.operation = status
            · rw [hactive] at hkeep
              simp [hop, hsame, OpCall.next, OpCall.completes, hcall, hkeep]
            · simp [hop, hsame, Ne.symm hsame, OpCall.next, OpCall.completes, OpCall.ends, hcall,
                runOperation, OpTracker.finish, Completion.sample, Completion.increment]
      · have hcall : (OpCall.observe clock key status phase).operation = none :=
          operation_observe_eq_none hop
        cases hactive : t.active key with
        | none =>
            rw [hactive] at hkeep
            simp [hop, OpCall.next, OpCall.completes, hcall, hkeep]
        -- the model asks for the phase first, `ends` for the status
        | some current =>
            simp [hop, OpCall.next, OpCall.completes, OpCall.ends, hcall, or_comm,
              OpTracker.finish, Completion.sample, Completion.increment]

/-! ## The calls of one key -/

/-- An open run starts with an observation. -/
theorem runOperation_of_openRun {calls : List OpCall} {run : ClusterStatus × OpCall}
    (h : openRun OpCall.operation calls = some run) :
    ∃ current, runOperation run = some current ∧ current.operation = run.1 := by
  have hlabel := label_openRun h
  rcases run with ⟨operation, _ | _⟩
  · exact ⟨_, rfl, rfl⟩
  · cases hlabel

/-- One more call of the key: it goes on with the open run, or ends it and may
start another. -/
theorem unfinished_concat (calls : List OpCall) (call : OpCall) :
    unfinished (calls ++ [call]) = call.next (unfinished calls) := by
  unfold unfinished OpCall.next
  cases hopen : openRun OpCall.operation calls with
  | none =>
      -- no run is open, so the call starts one or changes nothing
      rw [openRun_concat (by simp [hopen])]
      cases hcall : call.operation <;> simp
  | some run =>
      rcases runOperation_of_openRun hopen with ⟨current, hcurrent, hop⟩
      by_cases hsame : call.operation = some run.1
      · rw [openRun_concat_same hopen hsame]
        simp [hcurrent, hop, hsame]
      · rw [openRun_concat (by simpa [hopen] using hsame)]
        cases hcall : call.operation <;> simp_all

theorem completions_concat (calls : List OpCall) (call : OpCall) :
    completions (calls ++ [call]) =
      completions calls ++ (call.completes (unfinished calls)).toList := by
  unfold completions unfinished OpCall.completes
  cases hopen : openRun OpCall.operation calls with
  | none =>
      rw [endedRuns_concat (by simp [hopen]), hopen]
      simp
  -- => the label of the open run is the operation of the entry
  | some run =>
      rcases runOperation_of_openRun hopen with ⟨current, hcurrent, hop⟩
      by_cases hsame : call.operation = some run.1
      · rw [endedRuns_concat_same hopen hsame]
        simp [hcurrent, hop, hsame]
      · rw [endedRuns_concat (by simpa [hopen] using hsame), hopen]
        cases hends : call.ends current <;> simp [hcurrent, hop, hsame, hends]

/-- A forget ends the first run of upgrades silently, so the second is timed
from its own start. -/
example :
    let key : NamespacedName := ⟨"ns", "a"⟩
    completions
      [.observe ⟨0, 0⟩ key .scalingUp .configuring, .observe ⟨1, 1⟩ key .scalingUp .configuring,
        .observe ⟨5, 5⟩ key .upgrading .configuring, .forget key,
        .observe ⟨7, 7⟩ key .upgrading .configuring, .observe ⟨9, 9⟩ key .ready .error] =
      [⟨.scalingUp, 0, 5, .superseded⟩, ⟨.upgrading, 7, 9, .error⟩] := by
  decide

/-! ## All calls -/

/-- The calls on `key`, in their order. -/
def callsOn (key : NamespacedName) (calls : List OpCall) : List OpCall :=
  calls.filter (·.key = key)

theorem run_concat (calls : List OpCall) (call : OpCall) :
    OpTracker.run (calls ++ [call]) = (OpTracker.run calls).apply call := by
  simp [OpTracker.run]

theorem callsOn_concat (key : NamespacedName) (calls : List OpCall) (call : OpCall) :
    callsOn key (calls ++ [call]) =
      if call.key = key then callsOn key calls ++ [call] else callsOn key calls := by
  by_cases h : call.key = key <;> simp [callsOn, h]

/-- The tracker holds the open run of each key. -/
theorem active_run (calls : List OpCall) (key : NamespacedName) :
    (OpTracker.run calls).active key = unfinished (callsOn key calls) := by
  -- call by call, in the order they are made
  induction calls using List.reverseRecOn with
  | nil => rfl
  | append_singleton calls call ih =>
      rw [run_concat, apply_eq, callsOn_concat]
      by_cases h : call.key = key
      · subst h
        simp [ih, unfinished_concat]
      · simp [h, Ne.symm h, ih]

/-- The increments and the samples are those of one list of completions, which
holds the completions of each key in their order. How the keys are mixed does
not matter. -/
theorem exists_completed (calls : List OpCall) :
    ∃ done : List (NamespacedName × Completion),
      (OpTracker.run calls).total = done.map (·.2.increment) ∧
      (OpTracker.run calls).duration = done.map (·.2.sample) ∧
      ∀ key, (done.filter (·.1 = key)).map (·.2) = completions (callsOn key calls) := by
  induction calls using List.reverseRecOn with
  | nil => exact ⟨[], rfl, rfl, fun _ => rfl⟩
  | append_singleton calls call ih =>
      rcases ih with ⟨done, htotal, hduration, hkeys⟩
      -- what the call completes goes to the end, under its own key
      refine ⟨done ++ (call.completes (unfinished (callsOn call.key calls))).toList.map
        (call.key, ·), ?_, ?_, fun key => ?_⟩
      · rw [run_concat, apply_eq, active_run, htotal]
        simp
      · rw [run_concat, apply_eq, active_run, hduration]
        simp
      · rw [callsOn_concat]
        by_cases h : call.key = key
        · subst h
          simp [hkeys, completions_concat, List.filter_map, Function.comp_def]
        · simp [h, hkeys, List.filter_map, Function.comp_def]

/-- What the calls of one key do when they are made alone. -/
theorem run_callsOn (calls : List OpCall) (key : NamespacedName) :
    (OpTracker.run (callsOn key calls)).total =
        (completions (callsOn key calls)).map Completion.increment ∧
      (OpTracker.run (callsOn key calls)).duration =
        (completions (callsOn key calls)).map Completion.sample := by
  rcases exists_completed (callsOn key calls) with ⟨done, htotal, hduration, hkeys⟩
  have hother : ∀ key', key' ≠ key → callsOn key' (callsOn key calls) = [] := by
    intro key' hne
    simp only [callsOn, List.filter_filter, List.filter_eq_nil_iff]
    grind
  -- no other key has calls, so every completion is of this one
  have hown : ∀ c ∈ done, c.1 = key := by
    intro c hc
    by_contra hne
    have hnone := hkeys c.1
    rw [hother c.1 hne] at hnone
    have hmem : c.2 ∈ (done.filter (·.1 = c.1)).map (·.2) :=
      List.mem_map_of_mem (List.mem_filter.2 ⟨hc, by simp⟩)
    rw [hnone] at hmem
    cases hmem
  have hdone : done.map (·.2) = completions (callsOn key calls) := by
    have hself : callsOn key (callsOn key calls) = callsOn key calls := by simp [callsOn]
    rw [← hself, ← hkeys key, List.filter_eq_self.2 (by simpa using hown)]
  rw [htotal, hduration, ← hdone]
  simp

/-! ## The gauge -/

/-- A call leaves behind the operation it reports. -/
theorem operation_next (call : OpCall) (current : Option ActiveOperation) :
    (call.next current).map (·.operation) = call.operation := by
  unfold OpCall.next
  split
  case isTrue h => exact h.symm
  case isFalse =>
      cases call with
      | forget key => rfl
      | observe clock key status phase =>
          cases (OpCall.observe clock key status phase).operation <;> rfl

theorem active_apply_self (t : OpTracker) (call : OpCall) :
    ((t.apply call).active call.key).map (·.operation) = call.operation := by
  simp [apply_eq, operation_next]

theorem active_apply_ne (t : OpTracker) {call : OpCall} {key : NamespacedName}
    (h : key ≠ call.key) : (t.apply call).active key = t.active key := by
  simp [apply_eq, h]

/-- The gauge has a series for the operation that the tracker holds, and no
other. -/
def ShowsOperation (m : Metrics) (key : NamespacedName) : Prop :=
  ∀ operation, (m.redkeyOperationInProgress (key, operation)).isSome ↔
    (m.operationTracker.active key).map (·.operation) = some operation

/-- The call of the tracker that an event makes. -/
def trackerCall (clock : Clock) : MetricEvent → Option OpCall
  | .recordRedkeyMetrics cluster _ =>
      some (.observe clock cluster.key cluster.status.status cluster.status.phase)
  | .deleteRedkeyMetrics key => some (.forget key)
  | _ => none

theorem operationTracker_handle (m : Metrics) (clock : Clock) (event : MetricEvent) :
    (m.handle clock event).operationTracker =
      (trackerCall clock event).toList.foldl OpTracker.apply m.operationTracker := by
  cases event with
  | recordRedkeyMetrics cluster activeConfig => cases activeConfig <;> rfl
  | _ => rfl

/-- The gauge is written next to the tracker, from the same status. -/
theorem inProgress_record (m : Metrics) (clock : Clock) (cluster : Redkey)
    (activeConfig : Option RedkeyConfig) :
    (m.recordRedkeyMetrics clock cluster activeConfig).redkeyOperationInProgress =
      Metrics.markInProgress m.redkeyOperationInProgress cluster.key cluster.status.status := by
  cases activeConfig <;> rfl

/-- The series of a key: the operation that an observation reports, and no
other. -/
theorem isSome_markInProgress_self (g : GaugeVec (NamespacedName × ClusterStatus)) (clock : Clock)
    (key : NamespacedName) (status operation : ClusterStatus) (phase : Phase) :
    (Metrics.markInProgress g key status (key, operation)).isSome ↔
      (OpCall.observe clock key status phase).operation = some operation := by
  unfold Metrics.markInProgress
  by_cases hop : status ≠ .unset ∧ status ≠ .ready ∧ status ≠ .error
  · rw [operation_observe_eq_some hop, if_pos hop]
    by_cases hsame : operation = status
    · simp [hsame]
    · simp [hsame, Ne.symm hsame]
  · rw [operation_observe_eq_none hop, if_neg hop]
    simp

theorem markInProgress_ne (g : GaugeVec (NamespacedName × ClusterStatus))
    {key key' : NamespacedName} (status operation : ClusterStatus) (h : key' ≠ key) :
    Metrics.markInProgress g key status (key', operation) = g (key', operation) := by
  unfold Metrics.markInProgress
  split <;> simp [h]

/-- An event that makes a call sets the series of its key. -/
theorem inProgress_handle_self (m : Metrics) {clock : Clock} {event : MetricEvent} {call : OpCall}
    (hcall : trackerCall clock event = some call) (operation : ClusterStatus) :
    ((m.handle clock event).redkeyOperationInProgress (call.key, operation)).isSome ↔
      call.operation = some operation := by
  cases event with
  | recordRedkeyMetrics cluster activeConfig =>
      cases hcall
      simp only [Metrics.handle, inProgress_record, OpCall.key]
      exact isSome_markInProgress_self ..
  | deleteRedkeyMetrics key =>
      cases hcall
      simp [Metrics.handle, Metrics.deleteRedkeyMetrics, OpCall.key, OpCall.operation]
  | _ => cases hcall

theorem inProgress_handle_ne (m : Metrics) {clock : Clock} {event : MetricEvent}
    {key : NamespacedName} (hne : ∀ call, trackerCall clock event = some call → key ≠ call.key)
    (operation : ClusterStatus) :
    (m.handle clock event).redkeyOperationInProgress (key, operation) =
      m.redkeyOperationInProgress (key, operation) := by
  cases event with
  | recordRedkeyMetrics cluster activeConfig =>
      simp only [Metrics.handle, inProgress_record]
      exact markInProgress_ne _ _ _ (hne _ rfl)
  | deleteRedkeyMetrics key' =>
      have hkey : key ≠ key' := hne _ rfl
      simp [Metrics.handle, Metrics.deleteRedkeyMetrics, hkey]
  | _ => rfl

/-- Whatever the gauge showed before, it shows the operation of the key of the
event. -/
theorem showsOperation_handle_self (m : Metrics) {clock : Clock} {event : MetricEvent}
    {call : OpCall} (hcall : trackerCall clock event = some call) :
    ShowsOperation (m.handle clock event) call.key := by
  intro operation
  rw [inProgress_handle_self m hcall, operationTracker_handle, hcall, Option.toList_some,
    List.foldl_cons, List.foldl_nil, active_apply_self]

/-- One event keeps the gauge in step for every key. -/
theorem ShowsOperation.handle {m : Metrics} {key : NamespacedName} (h : ShowsOperation m key)
    (clock : Clock) (event : MetricEvent) : ShowsOperation (m.handle clock event) key := by
  by_cases hown : ∃ call, trackerCall clock event = some call ∧ key = call.key
  · rcases hown with ⟨call, hcall, rfl⟩
    exact showsOperation_handle_self m hcall
  -- neither the gauge nor the tracker has changed for another key
  · have hne : ∀ call, trackerCall clock event = some call → key ≠ call.key :=
      fun call hcall hkey => hown ⟨call, hcall, hkey⟩
    have hactive : (m.handle clock event).operationTracker.active key =
        m.operationTracker.active key := by
      rw [operationTracker_handle]
      cases hcall : trackerCall clock event with
      | none => rfl
      | some call => exact active_apply_ne _ (hne call hcall)
    intro operation
    rw [inProgress_handle_ne m hne, hactive]
    exact h operation

/-- After any events the gauge is in step with the tracker, and the tracker
has seen the calls that they make. -/
theorem showsOperation_run (events : List (Clock × MetricEvent)) :
    (∀ key, ShowsOperation (Metrics.run events) key) ∧
      (Metrics.run events).operationTracker =
        OpTracker.run (events.filterMap fun e => trackerCall e.1 e.2) := by
  induction events using List.reverseRecOn with
  | nil => exact ⟨fun key operation => by simp [Metrics.run], rfl⟩
  | append_singleton events e ih =>
      have hrun : Metrics.run (events ++ [e]) = (Metrics.run events).handle e.1 e.2 := by
        simp [Metrics.run]
      rw [hrun]
      refine ⟨fun key => (ih.1 key).handle e.1 e.2, ?_⟩
      -- the calls of the events so far, and that of the last one
      rw [operationTracker_handle, ih.2]
      cases hcall : trackerCall e.1 e.2 <;> simp [hcall, run_concat]

/-- The increments and the samples are those of the runs that ended, the
tracker holds the runs that did not, each key adds what its calls would add
alone, and the gauge follows every report. -/
theorem operations_accounted (calls : List OpCall) :
    (∃ done : List (NamespacedName × Completion),
      (OpTracker.run calls).total = done.map (·.2.increment) ∧
      (OpTracker.run calls).duration = done.map (·.2.sample) ∧
      ∀ key, (done.filter (·.1 = key)).map (·.2) = completions (callsOn key calls)) ∧
    (∀ key, (OpTracker.run calls).active key = unfinished (callsOn key calls)) ∧
    (∀ key, (OpTracker.run (callsOn key calls)).active key = (OpTracker.run calls).active key ∧
      (OpTracker.run (callsOn key calls)).total =
        (completions (callsOn key calls)).map Completion.increment ∧
      (OpTracker.run (callsOn key calls)).duration =
        (completions (callsOn key calls)).map Completion.sample) ∧
    ∀ (m : Metrics) (clock : Clock) (cluster : Redkey) (activeConfig : Option RedkeyConfig),
      ShowsOperation (m.recordRedkeyMetrics clock cluster activeConfig) cluster.key := by
  refine ⟨exists_completed calls, active_run calls, fun key => ⟨?_, run_callsOn calls key⟩, ?_⟩
  · rw [active_run, active_run]
    simp [callsOn]
  · intro m clock cluster activeConfig
    have hcall : trackerCall clock (.recordRedkeyMetrics cluster activeConfig) =
      some (.observe clock cluster.key cluster.status.status cluster.status.phase) := rfl
    exact showsOperation_handle_self m hcall

end RedkeyOperator
