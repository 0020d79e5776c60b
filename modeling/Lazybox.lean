import Lazybox.Library.Run
import Lazybox.Library.Keyed
import Lazybox.Library.MapM
import Lazybox.Library.OneShot
import Lazybox.Library.Words
import Lazybox.Library.Ranking
import Lazybox.Library.DigitText
import Lazybox.Library.Bytes
import Lazybox.Library.ChangeLog
import Lazybox.Library.EventStream
import Lazybox.Library.Circular
import Lazybox.Pty.ReplayRing
import Lazybox.Pty.SizeSpans
import Lazybox.Pty.Scrollback
import Lazybox.Pty.BlankSeed
import Lazybox.Pty.DaemonPty
import Lazybox.Pty.Pull
import Lazybox.Agents.StateMachine
import Lazybox.Agents.Lifecycle
import Lazybox.Agents.PendingDelivery
import Lazybox.Agents.AutoWait
import Lazybox.Agents.OutputSearch
import Lazybox.Library.RefCount
import Lazybox.Library.Source
import Lazybox.Library.JsonString
import Lazybox.Library.JsonText
import Lazybox.Ipc.Protocol
import Lazybox.Ipc.Socket
import Lazybox.Ipc.FrameBoundary
import Lazybox.EventForward.State
import Lazybox.EventForward.Run
import Lazybox.EventForward.Lossless
import Lazybox.EventForward.Debt
import Lazybox.EventForward.Client
import Lazybox.Proxy.UsageJson
import Lazybox.Proxy.UsageNumber
import Lazybox.Proxy.UsageNesting
import Lazybox.Proxy.UsageTokens
import Lazybox.Proxy.UsageAccepted
import Lazybox.Proxy.UsageExact
import Lazybox.Proxy.UsageParse
import Lazybox.Proxy.UsageFraming
import Lazybox.Proxy.UsageTerminal
import Lazybox.Proxy.Compactor
import Lazybox.Library.JsonValue
import Lazybox.Proxy.ContextHygiene
import Lazybox.Proxy.CompactionPlan
import Lazybox.Proxy.Payloads
import Lazybox.Proxy.UnitPlaces
import Lazybox.Proxy.PlanPass
import Lazybox.Proxy.ToolCalls
import Lazybox.Proxy.PlanStable
import Lazybox.Proxy.PlanFrame
import Lazybox.Proxy.CompactionGuarded
import Lazybox.Proxy.BlocksOnce
import Lazybox.Proxy.Flights
import Lazybox.Core.ProviderOps
import Lazybox.Core.ProviderFields
import Lazybox.Core.ProviderLedger
import Lazybox.Core.ProviderBoard
import Lazybox.Core.ProviderUnsent
import Lazybox.Core.ProviderRow
import Lazybox.Core.ProviderFreshness
import Lazybox.Core.ProviderIsolation
import Lazybox.Polling.Ops
import Lazybox.Polling.OpsDispatch
import Lazybox.Polling.WriteTargets
import Lazybox.Polling.MergeCall
import Lazybox.Polling.WriteLands
import Lazybox.Core.MergePolicy
import Lazybox.Core.Decimal
import Lazybox.Core.TileTree
import Lazybox.Core.TileTerminals
import Lazybox.Core.TileDivider
import Lazybox.Polling.AutoMerge
import Lazybox.Polling.AutoMergeLatch
import Lazybox.Polling.AutoFix
import Lazybox.Polling.NativeArm
import Lazybox.Polling.NativeIntent
import Lazybox.Core.WorkspaceKey
import Lazybox.Core.Activity
import Lazybox.Core.ActivityUnread
import Lazybox.Core.ActivityMerge
import Lazybox.Core.WorkingClaim
import Lazybox.Core.ClaimLines
import Lazybox.Core.IssueLinks
import Lazybox.Core.IssueLinkEnds
import Lazybox.Core.IssueLinkWords
import Lazybox.Core.IssueLinkGrammar
import Lazybox.Core.IssueLinkWindow
import Lazybox.Core.IssueLinkBlockers
import Lazybox.Core.PrTrailers
import Lazybox.Core.PrTrailerBodies
import Lazybox.Core.ClaimRoundTrip
import Lazybox.Library.FirstOfEach
import Lazybox.Library.Dependency
import Lazybox.Library.ParentLinks
import Lazybox.Library.Search
import Lazybox.Epics.Graph
import Lazybox.Epics.Resolve
import Lazybox.Epics.BlockerAges
import Lazybox.Epics.Waves
import Lazybox.Epics.CycleBlame
import Lazybox.Epics.CriticalPath
import Lazybox.Epics.Unblocks
import Lazybox.Epics.MergeHold
import Lazybox.Epics.Deltas
import Lazybox.Epics.ListingOrder
import Lazybox.Epics.DeclaredFold
import Lazybox.Library.ClaimedWrites
import Lazybox.Epics.Labels
import Lazybox.Epics.LabelsConverge
import Lazybox.Claims.Lease
import Lazybox.Claims.LeaseForward
import Lazybox.Claims.StableSweep
import Lazybox.Core.PrFacts
import Lazybox.Polling.Rotation
import Lazybox.Polling.RotationCovers
import Lazybox.Polling.RoundRobin
import Lazybox.Polling.RotationPick
import Lazybox.Polling.ForcedTurns
import Lazybox.Core.Stack
import Lazybox.Core.StackPlaces
import Lazybox.Core.StackOrder
import Lazybox.Polling.Collapse
import Lazybox.Polling.CollapseLocks
import Lazybox.Polling.CollapseHeld
import Lazybox.Polling.Engagement
import Lazybox.Polling.HotSet
import Lazybox.Ipc.Reconnect
import Lazybox.Ipc.Resync
import Lazybox.E2e.EncryptedStream
import Lazybox.E2e.Framing
import Lazybox.E2e.PlainPipe
import Lazybox.E2e.Delivery
import Lazybox.Cost.Meter
import Lazybox.Cost.Conservation
import Lazybox.Cost.Recorders
import Lazybox.Cost.PublishedOnce
import Lazybox.Cost.StoreFailures
import Lazybox.Library.Forest
import Lazybox.Work.Task
import Lazybox.Work.Store
import Lazybox.Work.Calls
import Lazybox.Work.CreateCall
import Lazybox.Work.Sweeps
import Lazybox.Work.Finished
import Lazybox.Work.Progress
import Lazybox.Work.PlanKept
import Lazybox.Library.PrefixRange
import Lazybox.Store.Traits
import Lazybox.Store.Sqlite
import Lazybox.Store.TimeText
import Lazybox.Store.Errors
import Lazybox.Store.ErrorInbox
import Lazybox.Store.Memory
import Lazybox.Store.Interchange
import Lazybox.Tui.Layout
import Lazybox.Github.RateBudget
import Lazybox.Github.Observations
import Lazybox.Github.Refusals
import Lazybox.Github.TickSpend
import Lazybox.Github.Reserve
import Lazybox.Github.Pacing
import Lazybox.Relay.Server
import Lazybox.Relay.Pairing
import Lazybox.Relay.BoxKeys
import Lazybox.Relay.Handshake
import Lazybox.Identity.Device
import Lazybox.Identity.Records
import Lazybox.Identity.Revocation
import Lazybox.Reviews.Store
import Lazybox.Reviews.Keys
import Lazybox.Reviews.Retention
import Lazybox.Reviews.Submissions
import Lazybox.Reviews.Ingest
import Lazybox.Reviews.IngestKeeps
import Lazybox.Core.TaskRef
import Lazybox.Core.TaskRefReadBack
import Lazybox.GhShim.Cache
import Lazybox.GhShim.Falsified
import Lazybox.Condense.Summarizer
import Lazybox.Condense.Stable
import Lazybox.Library.Ancestry
import Lazybox.GitOps.Repository
import Lazybox.GitOps.Inspect
import Lazybox.GitOps.Excludes
import Lazybox.GitOps.Output
import Lazybox.Library.Utf8Lossy
import Lazybox.GitOps.Diff
import Lazybox.GitOps.DiffNames
import Lazybox.GitOps.DiffShown
import Lazybox.GitOps.SafeRows
import Lazybox.GitOps.Delete
import Lazybox.GitOps.Lossless
import Lazybox.GhShim.Calls
import Lazybox.GhShim.Gh
import Lazybox.GhShim.Changes
