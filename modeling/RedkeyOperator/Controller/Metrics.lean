import RedkeyOperator.Api.Server

/-!
# Fleet metrics

`metrics.go`: the gauges that follow each Redkey, and the tracker that times its operations. An
operation is a run of observations of one status; the tracker sees the observations one by one,
of all Redkeys mixed.
-/

namespace RedkeyOperator

/-! ## Gauges -/

/-- A gauge vector: the value of every series that exists. A series that was
deleted is not there, which is not the same as zero. -/
def GaugeVec (L : Type) := L → Option ℕ

namespace GaugeVec

variable {L : Type} [DecidableEq L]

/-- `WithLabelValues(labels).Set(value)`. -/
def set (g : GaugeVec L) (labels : L) (value : ℕ) : GaugeVec L :=
  Function.update g labels (some value)

/-- `DeletePartialMatch` on the namespace and the name. -/
def deletePartialMatch (g : GaugeVec (NamespacedName × L)) (key : NamespacedName) :
    GaugeVec (NamespacedName × L) :=
  fun labels => if labels.1 = key then none else g labels

/-- One series for every possible value, 1 on the active one and 0 on the
rest. -/
def setState (g : GaugeVec (NamespacedName × L)) (key : NamespacedName) (values : List L)
    (active : L) : GaugeVec (NamespacedName × L) :=
  values.foldl (fun g value => g.set (key, value) (if value = active then 1 else 0)) g

@[simp]
theorem set_apply (g : GaugeVec L) (labels labels' : L) (value : ℕ) :
    g.set labels value labels' = if labels' = labels then some value else g labels' :=
  Function.update_apply g labels (some value) labels'

omit [DecidableEq L] in
@[simp]
theorem deletePartialMatch_apply (g : GaugeVec (NamespacedName × L)) (key : NamespacedName)
    (labels : NamespacedName × L) :
    g.deletePartialMatch key labels = if labels.1 = key then none else g labels := rfl

end GaugeVec

/-! ## `operationTracker` -/

/-- The result label of a completed operation. -/
inductive OperationResult where
  | success
  | error
  | superseded
deriving DecidableEq, Repr

/-- An operation that has not ended yet. -/
structure ActiveOperation where
  /-- The status Robin reports while it lasts. -/
  operation : ClusterStatus
  startedAt : Time
deriving DecidableEq, Repr

/-- What one call reads from the clock: first the end of an operation
(`time.Since`), then the start of the next (`time.Now`). -/
structure Clock where
  since : Time
  now : Time
deriving DecidableEq, Repr

/-- The tracker and the two vectors that only it writes: every sample of
`redkeyOperationDuration` and every increment of `redkeyOperationTotal`, with
its labels. -/
structure OpTracker where
  active : NamespacedName → Option ActiveOperation := fun _ => none
  duration : List (ClusterStatus × ℤ) := []
  total : List (ClusterStatus × OperationResult) := []

namespace OpTracker

/-- The sample and the increment of an operation that ends. -/
def finish (t : OpTracker) (since : Time) (current : ActiveOperation) (result : OperationResult) :
    OpTracker :=
  { t with
    duration := t.duration ++ [(current.operation, (since : ℤ) - current.startedAt)]
    total := t.total ++ [(current.operation, result)] }

/-- A report of a Redkey's status and phase. A settled status (`Ready`,
`Error` or none yet) ends the operation, and another one replaces it. -/
def observe (t : OpTracker) (clock : Clock) (key : NamespacedName) (status : ClusterStatus)
    (phase : Phase) : OpTracker :=
  let inOperation := status ≠ .unset ∧ status ≠ .ready ∧ status ≠ .error
  match t.active key with
  | none =>
      -- an operation starts; a settled cluster without one is nothing new
      if inOperation then
        { t with active := Function.update t.active key (some ⟨status, clock.now⟩) }
      else t
  | some current =>
      -- another operation takes over before the cluster settles
      if inOperation ∧ current.operation ≠ status then
        { t.finish clock.since current .superseded with
          active := Function.update t.active key (some ⟨status, clock.now⟩) }
      -- the cluster settles
      else if ¬ inOperation then
        let result := if phase = .error ∨ status = .error then .error else .success
        { t.finish clock.since current result with active := Function.update t.active key none }
      else t

/-- A Redkey that is gone; its operation ends without a sample. -/
def forget (t : OpTracker) (key : NamespacedName) : OpTracker :=
  { t with active := Function.update t.active key none }

end OpTracker

/-- A call of the tracker. The reconciles of all Redkeys make them, in any
order. -/
inductive OpCall where
  | observe (clock : Clock) (key : NamespacedName) (status : ClusterStatus) (phase : Phase)
  | forget (key : NamespacedName)
deriving DecidableEq, Repr

/-- The Redkey a call is about. -/
def OpCall.key : OpCall → NamespacedName
  | .observe _ key _ _ => key
  | .forget key => key

/-- The tracker after one more call. -/
def OpTracker.apply (t : OpTracker) : OpCall → OpTracker
  | .observe clock key status phase => t.observe clock key status phase
  | .forget key => t.forget key

/-- The tracker after `calls`, from the start of the operator. -/
def OpTracker.run (calls : List OpCall) : OpTracker := calls.foldl OpTracker.apply {}

/-! ## The gauges of a Redkey -/

/-- The series of the phase gauges: there is none for a phase that was never
set. -/
def redkeyPhaseValues : List Phase := [.ready, .configuring, .error]

def redkeyConfigPhaseValues : List ConfigPhase := [.pending, .inProgress, .superseded, .applied]

/-- Everything `metrics.go` keeps per Redkey. A time-to-ready sample is timed
from the creation of the config it stands for. -/
structure Metrics where
  operationTracker : OpTracker := {}
  /-- What the readiness tracker has seen last. -/
  lastPhase : NamespacedName → Option Phase := fun _ => none
  redkeyOperationInProgress : GaugeVec (NamespacedName × ClusterStatus) := fun _ => none
  redkeyPhase : GaugeVec (NamespacedName × Phase) := fun _ => none
  redkeyConfigPhase : GaugeVec (NamespacedName × ConfigPhase) := fun _ => none
  /-- The configs with which a Redkey became ready, one for each sample. -/
  redkeyTimeToReady : List RedkeyConfig := []

namespace Metrics

/-- The Redkey just entered the Ready phase; `lastPhase` as it was before the
call. -/
def enteredReady (lastPhase : NamespacedName → Option Phase) (key : NamespacedName)
    (phase : Phase) : Bool :=
  phase = .ready ∧ (lastPhase key).getD .unset ≠ .ready

/-- The gauge of running operations after a report of `status`. The series of
other operations of the Redkey are deleted first. -/
def markInProgress (g : GaugeVec (NamespacedName × ClusterStatus)) (key : NamespacedName)
    (status : ClusterStatus) : GaugeVec (NamespacedName × ClusterStatus) :=
  let g := g.deletePartialMatch key
  if status ≠ .unset ∧ status ≠ .ready ∧ status ≠ .error then g.set (key, status) 1 else g

/-- What a reconcile reports about its Redkey when it ends. Without an active
config, readiness is not looked at. -/
def recordRedkeyMetrics (m : Metrics) (clock : Clock) (cluster : Redkey)
    (activeConfig : Option RedkeyConfig) : Metrics :=
  let key := cluster.key
  let status := cluster.status
  let m :=
    { m with
      operationTracker := m.operationTracker.observe clock key status.status status.phase
      redkeyOperationInProgress := markInProgress m.redkeyOperationInProgress key status.status
      redkeyPhase := m.redkeyPhase.setState key redkeyPhaseValues status.phase }
  match activeConfig with
  -- this returns before the readiness tracker sees the phase
  | none => { m with redkeyConfigPhase := m.redkeyConfigPhase.deletePartialMatch key }
  | some config =>
      { m with
        redkeyConfigPhase :=
          m.redkeyConfigPhase.setState key redkeyConfigPhaseValues config.status.configPhase
        lastPhase := Function.update m.lastPhase key (some status.phase)
        redkeyTimeToReady :=
          if enteredReady m.lastPhase key status.phase then m.redkeyTimeToReady ++ [config]
          else m.redkeyTimeToReady }

/-- A Redkey that is gone. Its series go, and what was counted before
stays. -/
def deleteRedkeyMetrics (m : Metrics) (key : NamespacedName) : Metrics where
  operationTracker := m.operationTracker.forget key
  lastPhase := Function.update m.lastPhase key none
  redkeyOperationInProgress := m.redkeyOperationInProgress.deletePartialMatch key
  redkeyPhase := m.redkeyPhase.deletePartialMatch key
  redkeyConfigPhase := m.redkeyConfigPhase.deletePartialMatch key
  redkeyTimeToReady := m.redkeyTimeToReady

/-- An event of the controller. The counters of stages, configs and
deployments are not about one Redkey. -/
def handle (m : Metrics) (clock : Clock) : MetricEvent → Metrics
  | .recordRedkeyMetrics cluster activeConfig => m.recordRedkeyMetrics clock cluster activeConfig
  | .deleteRedkeyMetrics key => m.deleteRedkeyMetrics key
  | _ => m

/-- The metrics after `events`, from the start of the operator. -/
def run (events : List (Clock × MetricEvent)) : Metrics :=
  events.foldl (fun m e => m.handle e.1 e.2) {}

end Metrics

end RedkeyOperator
