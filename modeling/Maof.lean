import Maof.Agents.Client
import Maof.Approval.Finality
import Maof.Approval.Gate
import Maof.Approval.Parties
import Maof.Approval.Roles
import Maof.Approval.Service
import Maof.Approval.Tenancy
import Maof.Authz
import Maof.Context.Budget
import Maof.Context.Builder
import Maof.Context.Redactor
import Maof.Context.Salience
import Maof.Data.Agenda
import Maof.Data.Base64
import Maof.Data.Conversation
import Maof.Data.Dict
import Maof.Data.Json
import Maof.Data.JsonOrder
import Maof.Data.JsonText
import Maof.Data.JsonUnique
import Maof.Data.PyValue
import Maof.Data.Rulebook
import Maof.Data.WeightedMean
import Maof.Effects.Custody
import Maof.Effects.Ghost
import Maof.Effects.Grounds
import Maof.Effects.Logic
import Maof.Effects.Machine
import Maof.Effects.Mortal
import Maof.Effects.Objects
import Maof.Effects.Play
import Maof.Effects.Program
import Maof.Effects.Protocol
import Maof.Effects.Record
import Maof.Effects.Rewrite
import Maof.Errors
import Maof.Eval.Judge
import Maof.Graph.Kahn
import Maof.Orchestrator.ActionPlan
import Maof.Orchestrator.Attribution
import Maof.Orchestrator.Audit
import Maof.Orchestrator.Cancellation
import Maof.Orchestrator.Claims
import Maof.Orchestrator.Completeness
import Maof.Orchestrator.ContextDelegation
import Maof.Orchestrator.Coordinator
import Maof.Orchestrator.Delegation
import Maof.Orchestrator.Discipline
import Maof.Orchestrator.Drive
import Maof.Orchestrator.Frames
import Maof.Orchestrator.Gates
import Maof.Orchestrator.Intake
import Maof.Orchestrator.KillSwitch
import Maof.Orchestrator.L1
import Maof.Orchestrator.Lifecycle
import Maof.Orchestrator.Loop
import Maof.Orchestrator.LoopBounds
import Maof.Orchestrator.LoopResume
import Maof.Orchestrator.Messages
import Maof.Orchestrator.Outcomes
import Maof.Orchestrator.Passage
import Maof.Orchestrator.PlanGate
import Maof.Orchestrator.Poller
import Maof.Orchestrator.Routing
import Maof.Orchestrator.Stages
import Maof.Orchestrator.Status
import Maof.Orchestrator.System
import Maof.Orchestrator.Wakers
import Maof.Orchestrator.WakersAgree
import Maof.Orchestrator.Wakeups
import Maof.Orchestrator.World
import Maof.Persistence.PolicyRepo
import Maof.Persistence.ResultRows
import Maof.Platform
import Maof.Policy.Actions
import Maof.Policy.Callables
import Maof.Policy.Clamping
import Maof.Policy.Conditions
import Maof.Policy.Engine
import Maof.Policy.Evaluation
import Maof.Policy.Numbers
import Maof.Policy.Rulesets
import Maof.Policy.Strictness
import Maof.Registry.AgentCard
import Maof.Registry.Lifecycle
import Maof.Registry.Loader
import Maof.Registry.Search
import Maof.Registry.Store
import Maof.Registry.Updates
import Maof.Runs.Artifacts
import Maof.Runs.Carrier
import Maof.Runs.Checkpoint
import Maof.Runs.Guard
import Maof.Runs.Idempotency
import Maof.Runs.KeyIdentity
import Maof.Runs.Operator
import Maof.Runs.PlanKeys
import Maof.Runs.Retention
import Maof.Runs.Stores
import Maof.Runs.Trace
import Maof.Text.Regex
import Maof.Transport.Brokers
import Maof.Transport.Drain
import Maof.Transport.DurableBrokers
import Maof.Transport.FailureHandling
import Maof.Transport.Poison
import Maof.Transport.Retry
import Maof.Transport.Signing
import Maof.Transport.Wire
import Maof.Types
import Maof.Workers.Answers
import Maof.Workers.Causality
import Maof.Workers.Commit
import Maof.Workers.Consultation
import Maof.Workers.Pool
import Maof.Workers.SignedBodies
import Maof.Workers.SingleResult
import Maof.Workers.ToolScopes
import Maof.Workflows.Approvals
import Maof.Workflows.Approvers
import Maof.Workflows.Clamps
import Maof.Workflows.Completion
import Maof.Workflows.Correlation
import Maof.Workflows.Definition
import Maof.Workflows.Executor
import Maof.Workflows.Invocation
import Maof.Workflows.Ledger
import Maof.Workflows.Ordering
import Maof.Workflows.Parking
import Maof.Workflows.Posting
import Maof.Workflows.Promote
import Maof.Workflows.Readiness
import Maof.Workflows.References
import Maof.Workflows.Replay
import Maof.Workflows.StepApproval
import Maof.Workflows.Store
import Maof.Workflows.Template
import Maof.Workflows.Traversal
import Maof.Workflows.Trust
import Maof.Workflows.Writes
