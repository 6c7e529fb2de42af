import RedkeyOperator.Lib.Prog
import RedkeyOperator.Lib.Rules
import RedkeyOperator.Lib.Exec
import RedkeyOperator.Lib.Value
import RedkeyOperator.Lib.Decimal
import RedkeyOperator.Lib.Lag
import RedkeyOperator.Lib.Locality
import RedkeyOperator.Lib.Trace
import RedkeyOperator.Lib.History
import RedkeyOperator.Lib.Runs
import RedkeyOperator.Lib.Keyed
import RedkeyOperator.Lib.Pool
import RedkeyOperator.Lib.Queue
import RedkeyOperator.Api.Core
import RedkeyOperator.Api.Redkey
import RedkeyOperator.Api.Admission
import RedkeyOperator.Api.Server
import RedkeyOperator.Api.Authorization
import RedkeyOperator.Controller.Metadata
import RedkeyOperator.Controller.Robin
import RedkeyOperator.Controller.Environment
import RedkeyOperator.Controller.Config
import RedkeyOperator.Controller.ScaleZero
import RedkeyOperator.Controller.Reconcile
import RedkeyOperator.Controller.Metrics
import RedkeyOperator.Controller.Conditions
import RedkeyOperator.Controller.Rules
import RedkeyOperator.Controller.Lemmas
import RedkeyOperator.Controller.Footprint
import RedkeyOperator.Controller.Writes
import RedkeyOperator.Controller.Ownership
import RedkeyOperator.Controller.Requests
import RedkeyOperator.System.Lagging
import RedkeyOperator.System.LaggingRules
import RedkeyOperator.System.Sequencing
import RedkeyOperator.System.Generations
import RedkeyOperator.System.Fresh
import RedkeyOperator.System.Worker
import RedkeyOperator.System.Teardown
import RedkeyOperator.System.Readiness
import RedkeyOperator.System.WakeUp
import RedkeyOperator.System.Undisturbed
import RedkeyOperator.System.Record
import RedkeyOperator.System.Topology
import RedkeyOperator.System.FixedPoint
import RedkeyOperator.System.Isolation
import RedkeyOperator.System.Drift
import RedkeyOperator.System.LastApplied
import RedkeyOperator.System.Verdicts
import RedkeyOperator.System.Cleanup
import RedkeyOperator.System.Aggregate
import RedkeyOperator.System.Rbac
import RedkeyOperator.System.Recognition
import RedkeyOperator.System.Accounting
import RedkeyOperator.System.Provenance
import RedkeyOperator.System.Published
import RedkeyOperator.System.Tracking
import RedkeyOperator.System.Convergence
import RedkeyOperator.System.Hibernation
import RedkeyOperator.System.Pool
import RedkeyOperator.System.Watches
import RedkeyOperator.System.AtRest
import RedkeyOperator.System.Authorization
import RedkeyOperator.System.Replicas
