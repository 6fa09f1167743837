import PackageAudit.Audit.Batch
import PackageAudit.Audit.Check
import PackageAudit.Audit.Error
import PackageAudit.Audit.Report
import PackageAudit.Audit.Run
import PackageAudit.Audit.Script
import PackageAudit.Baseline.Registry
import PackageAudit.Baseline.Service
import PackageAudit.Binary64.Basic
import PackageAudit.Binary64.Decimal
import PackageAudit.Binary64.Layout
import PackageAudit.CheckId
import PackageAudit.CommandLine.Arguments
import PackageAudit.CommandLine.Display
import PackageAudit.CommandLine.Program
import PackageAudit.Confidential.Index
import PackageAudit.Confidential.Rules
import PackageAudit.Config.Basic
import PackageAudit.Config.Error
import PackageAudit.Config.Location
import PackageAudit.Digest.Blake3
import PackageAudit.Digest.Endian
import PackageAudit.Digest.Filtered
import PackageAudit.Digest.Xxh64
import PackageAudit.Document.Error
import PackageAudit.Document.Indented
import PackageAudit.Document.Json.Form
import PackageAudit.Document.Json.Number
import PackageAudit.Document.Json.Options
import PackageAudit.Document.Json.Reader
import PackageAudit.Document.Json.Text
import PackageAudit.Document.Node
import PackageAudit.Document.Path
import PackageAudit.Document.Printer
import PackageAudit.Document.Reading
import PackageAudit.Document.Record
import PackageAudit.Document.Value
import PackageAudit.Document.Yaml.Reader
import PackageAudit.Document.Yaml.Scalar
import PackageAudit.Document.Yaml.Token
import PackageAudit.Main
import PackageAudit.Manifest
import PackageAudit.Network.Error
import PackageAudit.Network.Request
import PackageAudit.Network.Settings
import PackageAudit.Network.Status
import PackageAudit.Package.Directory
import PackageAudit.Package.Entry
import PackageAudit.Package.EntrySet
import PackageAudit.Package.FileTree
import PackageAudit.Package.Memory
import PackageAudit.Package.Path
import PackageAudit.Package.Source
import PackageAudit.Pattern.Expr
import PackageAudit.Pattern.Glob
import PackageAudit.Pattern.Regex.Atom
import PackageAudit.Pattern.Regex.Meaning
import PackageAudit.Pattern.Regex.Reader
import PackageAudit.Pattern.Regex.Syntax
import PackageAudit.Pattern.Search
import PackageAudit.Platform
import PackageAudit.Problem
import PackageAudit.Proofs.Audit.Accounting
import PackageAudit.Proofs.Audit.Composition
import PackageAudit.Proofs.Audit.Contract
import PackageAudit.Proofs.Audit.Exclusion
import PackageAudit.Proofs.Audit.History
import PackageAudit.Proofs.Audit.Ledger
import PackageAudit.Proofs.Audit.Outcome
import PackageAudit.Proofs.Audit.Registry
import PackageAudit.Proofs.Audit.Rendered
import PackageAudit.Proofs.Audit.Replay
import PackageAudit.Proofs.Audit.Report
import PackageAudit.Proofs.Audit.Safety
import PackageAudit.Proofs.Audit.Share
import PackageAudit.Proofs.Audit.Turns
import PackageAudit.Proofs.Basic
import PackageAudit.Proofs.Binary64.Decimal
import PackageAudit.Proofs.Binary64.Rounding
import PackageAudit.Proofs.Confidential.Index
import PackageAudit.Proofs.Confidential.Keywords
import PackageAudit.Proofs.Confidential.PathRules
import PackageAudit.Proofs.Confidential.Roundtrip
import PackageAudit.Proofs.Confidential.Sections
import PackageAudit.Proofs.Config.Layers
import PackageAudit.Proofs.Digest.Filtered
import PackageAudit.Proofs.Digest.OneShot
import PackageAudit.Proofs.Document.Arena
import PackageAudit.Proofs.Document.Built
import PackageAudit.Proofs.Document.Equality
import PackageAudit.Proofs.Document.Finite
import PackageAudit.Proofs.Document.Json.Builder
import PackageAudit.Proofs.Document.Json.Completeness
import PackageAudit.Proofs.Document.Json.Depth
import PackageAudit.Proofs.Document.Json.Form
import PackageAudit.Proofs.Document.Json.Grammar
import PackageAudit.Proofs.Document.Json.Literals
import PackageAudit.Proofs.Document.Json.Located
import PackageAudit.Proofs.Document.Json.Number
import PackageAudit.Proofs.Document.Json.Relaxed
import PackageAudit.Proofs.Document.Json.Soundness
import PackageAudit.Proofs.Document.Json.Standing
import PackageAudit.Proofs.Document.Json.Strictness
import PackageAudit.Proofs.Document.Json.Text
import PackageAudit.Proofs.Document.Json.Written
import PackageAudit.Proofs.Document.Messages
import PackageAudit.Proofs.Document.NumberText
import PackageAudit.Proofs.Document.Path
import PackageAudit.Proofs.Document.Printer
import PackageAudit.Proofs.Document.Roundtrip
import PackageAudit.Proofs.Document.Stored
import PackageAudit.Proofs.Document.Value
import PackageAudit.Proofs.Document.Written
import PackageAudit.Proofs.Document.Yaml.AsJson
import PackageAudit.Proofs.Document.Yaml.Assembly
import PackageAudit.Proofs.Document.Yaml.Builder
import PackageAudit.Proofs.Document.Yaml.Capitals
import PackageAudit.Proofs.Document.Yaml.Columns
import PackageAudit.Proofs.Document.Yaml.Completeness
import PackageAudit.Proofs.Document.Yaml.Content
import PackageAudit.Proofs.Document.Yaml.Grammar
import PackageAudit.Proofs.Document.Yaml.Layout
import PackageAudit.Proofs.Document.Yaml.Lexed
import PackageAudit.Proofs.Document.Yaml.LineEnds
import PackageAudit.Proofs.Document.Yaml.Located
import PackageAudit.Proofs.Document.Yaml.Mapping
import PackageAudit.Proofs.Document.Yaml.Margin
import PackageAudit.Proofs.Document.Yaml.Noise
import PackageAudit.Proofs.Document.Yaml.Numeral
import PackageAudit.Proofs.Document.Yaml.Plain
import PackageAudit.Proofs.Document.Yaml.Positions
import PackageAudit.Proofs.Document.Yaml.Quotes
import PackageAudit.Proofs.Document.Yaml.Schema
import PackageAudit.Proofs.Document.Yaml.Soundness
import PackageAudit.Proofs.Network.Endpoint
import PackageAudit.Proofs.Network.Schedule
import PackageAudit.Proofs.Package.Directory
import PackageAudit.Proofs.Package.Entries
import PackageAudit.Proofs.Package.FileTree
import PackageAudit.Proofs.Package.Insertion
import PackageAudit.Proofs.Package.Memory
import PackageAudit.Proofs.Package.Synthesis
import PackageAudit.Proofs.Pattern.Glob
import PackageAudit.Proofs.Pattern.Matches
import PackageAudit.Proofs.Pattern.Search
import PackageAudit.Proofs.Rules.Agreement
import PackageAudit.Proofs.Rules.AtOnce
import PackageAudit.Proofs.Rules.Baseline
import PackageAudit.Proofs.Rules.Companions
import PackageAudit.Proofs.Rules.Confidential
import PackageAudit.Proofs.Rules.Consistency
import PackageAudit.Proofs.Rules.Duplicates
import PackageAudit.Proofs.Rules.Evidence
import PackageAudit.Proofs.Rules.Identity
import PackageAudit.Proofs.Rules.LineBreaks
import PackageAudit.Proofs.Rules.Manifest
import PackageAudit.Proofs.Rules.Minimum
import PackageAudit.Proofs.Rules.OnePass
import PackageAudit.Proofs.Rules.Rendered
import PackageAudit.Proofs.Rules.Reporting
import PackageAudit.Proofs.Rules.Survivors
import PackageAudit.Proofs.Rules.Syntax
import PackageAudit.Proofs.Rules.Texts
import PackageAudit.Proofs.Text.Encoding
import PackageAudit.Proofs.Text.Lines
import PackageAudit.Proofs.Text.Utf8
import PackageAudit.Proofs.Unicode.Case
import PackageAudit.Proofs.Unicode.CodePoints
import PackageAudit.Proofs.Url.Percent
import PackageAudit.Proofs.Version
import PackageAudit.Rules.Baseline
import PackageAudit.Rules.Confidential
import PackageAudit.Rules.Consistency
import PackageAudit.Rules.Identity
import PackageAudit.Rules.Manifest
import PackageAudit.Rules.Registry
import PackageAudit.Rules.Syntax
import PackageAudit.Text.Digits
import PackageAudit.Text.Encoding
import PackageAudit.Text.Quoted
import PackageAudit.Text.Sorted
import PackageAudit.Text.Utf8
import PackageAudit.Toml.Reader
import PackageAudit.Toml.Scalar
import PackageAudit.Toml.Text
import PackageAudit.Toml.Value
import PackageAudit.Unicode.Case
import PackageAudit.Unicode.Category
import PackageAudit.Unicode.CodePoints
import PackageAudit.Unicode.Property
import PackageAudit.Unicode.Script
import PackageAudit.Url.Basic
import PackageAudit.Url.Host
import PackageAudit.Url.Percent
import PackageAudit.Url.Punycode
import PackageAudit.Url.Reader
import PackageAudit.Version
