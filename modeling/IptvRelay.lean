import IptvRelay.Auth.OidcSignIns
import IptvRelay.Auth.TokenTrails
import IptvRelay.Auth.ViewerRights
import IptvRelay.Catalog.Candidates
import IptvRelay.Catalog.Lineups
import IptvRelay.Catalog.Numbers
import IptvRelay.Catalog.RollbackExact
import IptvRelay.Credential.HiddenUrls
import IptvRelay.Guide.DatelessStarts
import IptvRelay.Guide.EpgReconcile
import IptvRelay.Guide.EpgSettled
import IptvRelay.Guide.EventDurations
import IptvRelay.Guide.Schedule
import IptvRelay.Guide.SingleEvent
import IptvRelay.Guide.SingleScans
import IptvRelay.Guide.StopCaptures
import IptvRelay.Ingest.CompressedBody
import IptvRelay.Ingest.Sanitize
import IptvRelay.Ingest.StableKeys
import IptvRelay.Ingest.StagedQueue
import IptvRelay.Lib.Machine
import IptvRelay.Media.Boundaries
import IptvRelay.Media.Histogram
import IptvRelay.Media.Pacer
import IptvRelay.Media.PassiveRuns
import IptvRelay.Media.Priming
import IptvRelay.Media.Sizing
import IptvRelay.Media.Sps
import IptvRelay.Media.ViewerDelay
import IptvRelay.Media.Wakeups
import IptvRelay.Output.Gaps
import IptvRelay.Output.GuideXml
import IptvRelay.Output.OpenEnded
import IptvRelay.Output.PlaylistReads
import IptvRelay.Parsers.QuoteScanners
import IptvRelay.Parsers.Slices
import IptvRelay.Parsers.TextFidelity
import IptvRelay.Parsers.Timestamps
import IptvRelay.Parsers.Visits
import IptvRelay.Playback.PlanFacts
import IptvRelay.Playback.ProbeExclusion
import IptvRelay.Registry.SingleFlight
import IptvRelay.Session.SlotSharing
import IptvRelay.Session.Termination
import IptvRelay.Settings.Readers
import IptvRelay.Slate.ClockReaders
import IptvRelay.Slate.Counters
import IptvRelay.Slate.DriverSafe
import IptvRelay.Slate.PesRebase
import IptvRelay.Slate.PsiRoundTrip
import IptvRelay.Slate.Timeline
import IptvRelay.Sports.Confidence
import IptvRelay.Store.AttemptLock
import IptvRelay.Store.DeadLetters
import IptvRelay.Store.Partitions
import IptvRelay.Store.RedactedValues
import IptvRelay.Store.Refresh
import IptvRelay.Store.SchedulingRuns
import IptvRelay.Store.SnapshotGate
