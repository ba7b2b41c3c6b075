import ApiGateway.Auth.Credential
import ApiGateway.Auth.Extractor
import ApiGateway.Auth.Filter
import ApiGateway.Auth.Problem
import ApiGateway.Auth.Token
import ApiGateway.Auth.TokenHeader
import ApiGateway.Breaker
import ApiGateway.Breaker.Registry
import ApiGateway.Crypto.Sha256
import ApiGateway.Decimal.Binary64
import ApiGateway.Discovery.Cache
import ApiGateway.Discovery.Chain
import ApiGateway.Discovery.Collector
import ApiGateway.Discovery.Fetch
import ApiGateway.Discovery.Membership
import ApiGateway.Discovery.Schedule
import ApiGateway.Discovery.Sieve
import ApiGateway.Document
import ApiGateway.Duration
import ApiGateway.Duration.Text
import ApiGateway.Endpoint
import ApiGateway.Failure
import ApiGateway.Gateway.Basic
import ApiGateway.Gateway.Serve
import ApiGateway.Http.Exchange
import ApiGateway.Http.Method
import ApiGateway.Http.Response
import ApiGateway.Hub
import ApiGateway.Json.Basic
import ApiGateway.Json.Read
import ApiGateway.Json.Write
import ApiGateway.Logging
import ApiGateway.Metrics
import ApiGateway.Net.Ip
import ApiGateway.Net.SocketAddress
import ApiGateway.Path.Boundary
import ApiGateway.Path.Pattern
import ApiGateway.Path.Template
import ApiGateway.Proofs.Auth.Credential
import ApiGateway.Proofs.Auth.Filter
import ApiGateway.Proofs.Discovery.CollectorEvents
import ApiGateway.Proofs.Discovery.Flow
import ApiGateway.Proofs.Gateway.Admission
import ApiGateway.Proofs.Path.Segments
import ApiGateway.Proofs.Query
import ApiGateway.Proofs.Route.Following
import ApiGateway.Proofs.Route.IndexContents
import ApiGateway.Proofs.Route.Injection
import ApiGateway.Proofs.Route.Lookup
import ApiGateway.Proofs.Route.Pipeline
import ApiGateway.Proofs.Route.Succession
import ApiGateway.Proofs.Route.Symbol
import ApiGateway.Proofs.Route.TableRun
import ApiGateway.Proofs.Route.TemplateSymbols
import ApiGateway.Proofs.Route.TreeContents
import ApiGateway.Proofs.Route.TreeGrowth
import ApiGateway.Proofs.Text.Percent
import ApiGateway.Proofs.Text.Utf8
import ApiGateway.Proxy
import ApiGateway.Query
import ApiGateway.Resolver
import ApiGateway.Route.Assembly
import ApiGateway.Route.Basic
import ApiGateway.Route.Builder
import ApiGateway.Route.Collision
import ApiGateway.Route.Injection
import ApiGateway.Route.Processor
import ApiGateway.Route.Table
import ApiGateway.Route.Tree
import ApiGateway.Settings.Basic
import ApiGateway.Settings.Load
import ApiGateway.Settings.Names
import ApiGateway.Settings.Overrides
import ApiGateway.Settings.Read
import ApiGateway.Settings.Validation
import ApiGateway.Settings.Write
import ApiGateway.Text.Base64Url
import ApiGateway.Text.Blank
import ApiGateway.Text.Case
import ApiGateway.Text.Percent
import ApiGateway.Text.Scan
import ApiGateway.Text.Utf8
import ApiGateway.Url
import ApiGateway.Url.Host
import ApiGateway.Url.Punycode
import ApiGateway.Yaml.Cursor
import ApiGateway.Yaml.Node
import ApiGateway.Yaml.OfJson
import ApiGateway.Yaml.Scalar
import ApiGateway.Yaml.Token
import ApiGateway.Yaml.Value
import ApiGateway.Proofs.Route.Retention
import ApiGateway.Proofs.Path.Filling
import ApiGateway.Proofs.Route.RoundTrip
import ApiGateway.Proofs.Path.Alternation
import ApiGateway.Proofs.Auth.Claimants
import ApiGateway.Proofs.Route.CollisionRecords
import ApiGateway.Proofs.Breaker.History
import ApiGateway.Proofs.Breaker.Books
import ApiGateway.Proofs.Breaker.Trials
import ApiGateway.Proofs.Discovery.Turns
import ApiGateway.Proofs.Discovery.Course
import ApiGateway.Proofs.Discovery.Accounts
import ApiGateway.Proofs.Discovery.Overtaking
import ApiGateway.Proofs.Discovery.Isolation
import ApiGateway.Proofs.Discovery.Refreshes
import ApiGateway.Proofs.Route.Reading
import ApiGateway.Proofs.Route.TreeEntries
import ApiGateway.Proofs.Route.Clashes
import ApiGateway.Proofs.Route.Refusals
import ApiGateway.Proofs.Route.Rebuilding
import ApiGateway.Proofs.Route.Traces
import ApiGateway.Proofs.Route.Captures
import ApiGateway.Proofs.Url.Escaping
import ApiGateway.Proofs.Url.Location
import ApiGateway.Proofs.Url.Web
import ApiGateway.Proofs.Proxy.Destination
import ApiGateway.Proofs.Route.IdentityPath
import ApiGateway.Proofs.Settings.Validity
import ApiGateway.Proofs.Named
import ApiGateway.Proofs.Breaker.Handles
import ApiGateway.Proofs.Resolver
import ApiGateway.Proofs.Proxy.Losses
import ApiGateway.Proofs.Path.Patterns
import ApiGateway.Proofs.Net.Host
import ApiGateway.Proofs.Gateway.StartUp
import ApiGateway.Proofs.Discovery.ReservedPaths
import ApiGateway.Proofs.Hub
import ApiGateway.Proofs.Breaker.Generations
import ApiGateway.Proofs.Route.ProcessorOrder
import ApiGateway.Proofs.Text.Decimal
import ApiGateway.Proofs.Duration.Text
import ApiGateway.Proofs.Json.Members
import ApiGateway.Proofs.Settings.Kinds
import ApiGateway.Proofs.Settings.RoundTrip
import ApiGateway.Proofs.Path.PatternGrammar
import ApiGateway.Proofs.Route.QueryPairs
import ApiGateway.Proofs.Route.LeadRestoration
import ApiGateway.Proofs.Route.Conditions
import ApiGateway.Proofs.Breaker.Counters
import ApiGateway.Proofs.Proxy.Reports
import ApiGateway.Proofs.Discovery.InFlight
import ApiGateway.Proofs.Resolver.Fairness
import ApiGateway.Proofs.Text.Blanks
import ApiGateway.Proofs.Auth.Spelling
import ApiGateway.Proofs.Text.Base64Url
import ApiGateway.Proofs.Text.Utf8Reading
import ApiGateway.Proofs.Json.Reading
import ApiGateway.Proofs.Auth.Times
import ApiGateway.Proofs.Auth.Token
import ApiGateway.Proofs.Json.Order
import ApiGateway.Proofs.Document.Forms
import ApiGateway.Proofs.Document.Operations
