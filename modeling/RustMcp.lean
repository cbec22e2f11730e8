import RustMcp.Freshness
import RustMcp.Frontmatter
import RustMcp.HtmlEscapes
import RustMcp.DocsSnippets
import RustMcp.HrefScan
import RustMcp.DocsPaths
import RustMcp.ProxyReplies
import RustMcp.EventStream
import RustMcp.UseExports
import RustMcp.Alternatives
import RustMcp.ApiKinds
import RustMcp.SymbolSearch
import RustMcp.UsagePatterns
import RustMcp.HotspotPages
import RustMcp.ErrorPages
import RustMcp.PageArithmetic
import RustMcp.ResolveConflicts
import RustMcp.OutdatedVersions
import RustMcp.PathGlobs
import RustMcp.FeatureClosures
import RustMcp.GraphTraversal
import RustMcp.OsvEvidence
import RustMcp.OsvText
import RustMcp.WindowBound
import RustMcp.BurstSpacing
import RustMcp.ActiveJobs
import RustMcp.Completions
import RustMcp.DiffLayout
import RustMcp.PresenceRuns
import RustMcp.Orphans
import RustMcp.CacheRuns
import RustMcp.Provenance
import RustMcp.OnDemand
import RustMcp.Urgency
import RustMcp.TypeInfo
import RustMcp.GithubSync
import RustMcp.Spellings
import RustMcp.SourceReads
import RustMcp.RustsecText
import RustMcp.Pruning
import RustMcp.IndexRepair
import RustMcp.Extraction
import RustMcp.FeatureImpact
import RustMcp.ReExports
import RustMcp.CacheWatch
import RustMcp.SourceSearch
import RustMcp.CanonicalPaths
import RustMcp.CheckedCrates
import RustMcp.Confinement
import RustMcp.CrateNames
import RustMcp.DependencyAudit
import RustMcp.DiffMirror
import RustMcp.DocsCrawl
import RustMcp.OsvIntervals
import RustMcp.Severity
import RustMcp.StdioProxy
import RustMcp.DeprecatedItems
import RustMcp.Compare
import RustMcp.HeaderValues
import RustMcp.UpstreamMeta
import RustMcp.ManifestDeps
import RustMcp.ModulePaths
import RustMcp.RustdocCompat
import RustMcp.ImportsInScope
import RustMcp.RustSymbols
import RustMcp.ImplContext
import RustMcp.GithubSources
import RustMcp.CandidateOrder
import RustMcp.Calendar
import RustMcp.PublishedAge
import RustMcp.Rounding
import RustMcp.SymbolNames
import RustMcp.SessionStore
import RustMcp.Base64Url
import RustMcp.JsonRead
import RustMcp.Cursors
import RustMcp.VersionTimeline
