import KodyCelld.Cells.PackageSave
import KodyCelld.OAuth.RefreshRaces
import KodyCelld.Integrations.Store
import KodyCelld.Integrations.Disconnect
import KodyCelld.Integrations.ConnectAttempts
import KodyCelld.Auth.SigninLockout
import KodyCelld.Apps.Handoff
import KodyCelld.Secrets.ProviderResolution
import KodyCelld.Secrets.ProviderCache
import KodyCelld.Secrets.ProviderLocks
import KodyCelld.Webhooks.Verify
import KodyCelld.Webhooks.Ingress
import KodyCelld.Webhooks.Authorised
import KodyCelld.Webhooks.Deliveries
import KodyCelld.Mcp.Calls
import KodyCelld.Mcp.Lineage
import KodyCelld.Mcp.SignIn
import KodyCelld.Webhooks.RateLimit
import KodyCelld.Webhooks.Rotation
import KodyCelld.Lib.Url
import KodyCelld.OAuth.Protocol
import KodyCelld.OAuth.Redirects
import KodyCelld.OAuth.AuthorizeExchange
import KodyCelld.Mcp.PolicyFetch
import KodyCelld.Execute.NpmResolver
import KodyCelld.Packages.Tar
import KodyCelld.Packages.SourcePaths
import KodyCelld.Packages.GitTree
import KodyCelld.Packages.Install
import KodyCelld.Runs.ExecuteRun
import KodyCelld.Blobs.BlobIndex
import KodyCelld.Blobs.BlobService
import KodyCelld.Blobs.BlobQuota
import KodyCelld.Email.Destinations
import KodyCelld.Email.MessageRuns
import KodyCelld.Secrets.ProviderBindings
import KodyCelld.Cells.JobSync
import KodyCelld.Cells.JobRuns
import KodyCelld.Cells.JobHistory
import KodyCelld.Auth.PasswordChanges
import KodyCelld.Apps.Serve
import KodyCelld.Apps.ServeRuns
import KodyCelld.Lib.Redirects
import KodyCelld.Lib.UrlPaths
import KodyCelld.Packages.SourceFetch
import KodyCelld.Packages.GitSmartHttp
import KodyCelld.Lib.SimpleUrls
import KodyCelld.Packages.CommunityRuns
import KodyCelld.Auth.Setup
import KodyCelld.Email.Addresses
import KodyCelld.MailBridge.MailOptions
import KodyCelld.Email.Outbound
import KodyCelld.Email.Relay
import KodyCelld.Email.OutboundStatus
import KodyCelld.Email.Inbound
import KodyCelld.Email.InboundReply
import KodyCelld.Apps.Forward
import KodyCelld.Memory.MemoryCell
import KodyCelld.Memory.VectorRuns
import KodyCelld.Apps.AppUrl
import KodyCelld.Apps.Origin
import KodyCelld.Jobs.CronGrammar
import KodyCelld.Jobs.Dates
import KodyCelld.Auth.SigninNext
import KodyCelld.Memory.Search
import KodyCelld.Lib.Tables
import KodyCelld.Packages.FilesMigration
import KodyCelld.Lib.Like
import KodyCelld.Packages.CommunitySearch
import KodyCelld.Secrets.Placeholders
import KodyCelld.Lib.WordBoundary
import KodyCelld.Cells.ReservedTables
import KodyCelld.Lib.NumberText
import KodyCelld.Lib.UriComponents
import KodyCelld.Blobs.SignedLinks
import KodyCelld.Webhooks.SignatureHeaders
import KodyCelld.Email.MessageSearch
import KodyCelld.Lib.DeltaFormat
import KodyCelld.Lib.Words
import KodyCelld.Packages.GitDelta
import KodyCelld.Lib.Sha1
import KodyCelld.Packages.GitPack
import KodyCelld.Secrets.Allowlist
import KodyCelld.Secrets.PrivateHosts
import KodyCelld.Execute.ModuleGraph
import KodyCelld.Execute.NpmModules
import KodyCelld.Execute.PackageModules
import KodyCelld.Execute.NpmCacheStore
import KodyCelld.Secrets.Ipv6Forms
import KodyCelld.Execute.IsolateNames
import KodyCelld.Execute.RelativePaths
import KodyCelld.Packages.ManifestPaths
import KodyCelld.Email.SenderRules
import KodyCelld.Lib.JsonSize
import KodyCelld.Mcp.Tools
import KodyCelld.Lib.Pathnames
import KodyCelld.Blobs.BlobPrefixes
import KodyCelld.Execute.ModulePaths
import KodyCelld.Apps.AppLinks
import KodyCelld.Runs.ErrorTriage
