import PipelineIQ.Lib.Dict
import PipelineIQ.Pipeline.Runner
import PipelineIQ.Pipeline.Eviction
import PipelineIQ.Execution.BusIsolation
import PipelineIQ.Api.WritePermission
import PipelineIQ.Sse.Forwarding
import PipelineIQ.Sse.Integrity
import PipelineIQ.Streaming.Conservation
import PipelineIQ.Streaming.OffsetWindow
import PipelineIQ.Lifecycle.Absorbing
import PipelineIQ.Lifecycle.Redelivery
import PipelineIQ.Execution.SampleRouting
import PipelineIQ.Execution.FillNullsRouting
import PipelineIQ.Execution.SaveStep
import PipelineIQ.Execution.SqlSafety
import PipelineIQ.Execution.FilterRouting
import PipelineIQ.Execution.WasmExecutor
import PipelineIQ.Execution.WasmFuel
import PipelineIQ.Frontend.WidgetStore
import PipelineIQ.Execution.PatchExactness
import PipelineIQ.Pipeline.ReferenceSoundness
import PipelineIQ.Scheduling.Accounting
import PipelineIQ.Contracts.FailClosed
import PipelineIQ.Contracts.Tenancy
import PipelineIQ.Contracts.Blocking
import PipelineIQ.Cost.Agreement
import PipelineIQ.Execution.Injection
import PipelineIQ.Streaming.CircuitBreaker
import PipelineIQ.Streaming.BatchRegistry
import PipelineIQ.Healing.Classifier
import PipelineIQ.Healing.Fidelity
import PipelineIQ.Healing.AttemptLog
import PipelineIQ.Ai.TokenBudget
import PipelineIQ.Streaming.QueueFidelity
import PipelineIQ.Execution.JoinRouting
import PipelineIQ.Execution.AggregateRouting
import PipelineIQ.Pipeline.LineageRun
import PipelineIQ.Api.ContractVersions
import PipelineIQ.Pipeline.Cache
import PipelineIQ.Tasks.Announcements
import PipelineIQ.Tasks.CatalogRegistration
import PipelineIQ.Tasks.WebhookTenancy
import PipelineIQ.Tasks.Redirects
import PipelineIQ.Tasks.DeliveryLog
import PipelineIQ.Pipeline.SaveVersion
import PipelineIQ.Api.Bootstrap
import PipelineIQ.Repositories.CatalogTenancy
import PipelineIQ.Repositories.CatalogFallback
import PipelineIQ.Streaming.Backpressure
import PipelineIQ.Security.Noninterference
import PipelineIQ.Security.Masking
import PipelineIQ.Streaming.Control
import PipelineIQ.Api.UploadAgreement
import PipelineIQ.Api.UploadLifecycle
import PipelineIQ.Frontend.Collaboration
import PipelineIQ.Frontend.RunView
import PipelineIQ.Ai.YamlDiff
import PipelineIQ.Execution.DeduplicateRouting
import PipelineIQ.Execution.UnpivotRouting
import PipelineIQ.Frontend.SharedDocument
import PipelineIQ.Pipeline.LineageImpact
import PipelineIQ.Pipeline.PlannerTotality
import PipelineIQ.Pipeline.VersionDiff
import PipelineIQ.Storage.StorageKey
import PipelineIQ.Streaming.TripLaw
import PipelineIQ.Frontend.TopologicalOrder
import PipelineIQ.Frontend.CanvasEditing
import PipelineIQ.Pipeline.LineageAncestry
import PipelineIQ.Execution.SortRouting
import PipelineIQ.Execution.PivotRouting
import PipelineIQ.Pipeline.Validators
import PipelineIQ.Execution.SqlStripping
import PipelineIQ.Execution.ModuleCache
import PipelineIQ.Security.PolicyCache
import PipelineIQ.Security.TokenRevocation
import PipelineIQ.Api.SchemaDrift
import PipelineIQ.Cost.Agreement
import PipelineIQ.Frontend.CanvasRoundTrip
import PipelineIQ.Scheduling.Pausing
import PipelineIQ.Api.NameConfinement
import PipelineIQ.Frontend.PipelineName
import PipelineIQ.Frontend.Renaming
import PipelineIQ.Pipeline.ColumnFlow
import PipelineIQ.Pipeline.ColumnSlices
import PipelineIQ.Services.Preflight
import PipelineIQ.Storage.ProviderAgreement
import PipelineIQ.Streaming.DeadLetters
