import TealAudit.Base64
import TealAudit.Batch
import TealAudit.Block
import TealAudit.Cache
import TealAudit.Catalogue
import TealAudit.CommandLine.Analysis
import TealAudit.CommandLine.Arguments
import TealAudit.CommandLine.Duration
import TealAudit.CommandLine.Options
import TealAudit.CommandLine.Record
import TealAudit.CommandLine.Run
import TealAudit.CommandLine.Verdict
import TealAudit.Config
import TealAudit.Config.Document
import TealAudit.Config.File
import TealAudit.Config.OfToml
import TealAudit.Config.OfYaml
import TealAudit.Decimal
import TealAudit.Detector
import TealAudit.Detector.DeadCode
import TealAudit.Detector.HighComplexity
import TealAudit.Dict
import TealAudit.Disk
import TealAudit.Document
import TealAudit.Drawing
import TealAudit.Engine
import TealAudit.Failure
import TealAudit.Fields
import TealAudit.FileTree
import TealAudit.Finding
import TealAudit.Finding.Render
import TealAudit.Finding.Snippet
import TealAudit.Finding.Styled
import TealAudit.Flow
import TealAudit.Instruction
import TealAudit.Json
import TealAudit.Listing
import TealAudit.Main
import TealAudit.Moment
import TealAudit.Numeral
import TealAudit.Opcode
import TealAudit.Path
import TealAudit.Program
import TealAudit.Proofs.LineGrammar
import TealAudit.Proofs.Reading
import TealAudit.Proofs.Search
import TealAudit.Rank
import TealAudit.Registry
import TealAudit.Report.Json
import TealAudit.Scan
import TealAudit.Search
import TealAudit.Suppression
import TealAudit.SyntaxError
import TealAudit.Text
import TealAudit.Text.Blank
import TealAudit.Text.Cluster
import TealAudit.Text.Fold
import TealAudit.Text.Letter
import TealAudit.Text.Natural
import TealAudit.Text.Point
import TealAudit.Text.Printable
import TealAudit.Text.Quoted
import TealAudit.Text.Width
import TealAudit.Toml.Reader
import TealAudit.Toml.Table
import TealAudit.Toml.Writer
import TealAudit.Watch
import TealAudit.Word
import TealAudit.Yaml.Cursor
import TealAudit.Yaml.Cutting
import TealAudit.Yaml.Node
import TealAudit.Yaml.Reader
import TealAudit.Yaml.Scalar
import TealAudit.Yaml.Source
import TealAudit.Yaml.Token
import TealAudit.Yaml.Value
import TealAudit.Yaml.Writer
import TealAudit.Proofs.Partition
import TealAudit.Proofs.Successors
import TealAudit.Proofs.Execution
import TealAudit.Proofs.Points
import TealAudit.Proofs.Scanning
import TealAudit.Proofs.Sessions
import TealAudit.Proofs.Layout
import TealAudit.Proofs.Suppression
import TealAudit.Proofs.RoundTrip
import TealAudit.Proofs.Relabelling
import TealAudit.Proofs.Histories
import TealAudit.Proofs.Writing
import TealAudit.Proofs.Exports
import TealAudit.Proofs.Reachability
import TealAudit.Proofs.Resolution
import TealAudit.Proofs.Complexity
import TealAudit.Proofs.Batches
import TealAudit.Proofs.JsonGrammar
import TealAudit.Proofs.Verdicts
import TealAudit.Proofs.Predecessors
import TealAudit.Proofs.Positions
import TealAudit.Proofs.Frames
import TealAudit.Proofs.Literals
import TealAudit.Proofs.Appending
import TealAudit.Proofs.Drawings
import TealAudit.Proofs.NamedDetectors
import TealAudit.Proofs.Quotation
import TealAudit.Proofs.Snippets
import TealAudit.Proofs.StoppedBatches
import TealAudit.Proofs.Cleaning
import TealAudit.Proofs.Containment
import TealAudit.Proofs.Scans
import TealAudit.Proofs.Registrations
import TealAudit.Proofs.Retention
import TealAudit.Proofs.Indentation
import TealAudit.Proofs.Escapes
import TealAudit.Proofs.TomlValues
import TealAudit.Proofs.TomlTables
import TealAudit.Proofs.Configurations
