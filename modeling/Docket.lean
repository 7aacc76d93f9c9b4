import Docket.Calendar.Date
import Docket.Calendar.Format
import Docket.Calendar.Instant
import Docket.Config.Basic
import Docket.Config.Json
import Docket.Daemon.Log
import Docket.Daemon.LogFormat
import Docket.Daemon.Service
import Docket.Digest.Sha256
import Docket.Document.Basic
import Docket.Document.Json
import Docket.Document.Mimetype
import Docket.Extract.Docx
import Docket.Extract.Error
import Docket.Extract.Extractor
import Docket.Extract.Pages
import Docket.Extract.Picture
import Docket.Extract.Preview
import Docket.Extract.Recognize
import Docket.Extract.Tool
import Docket.Files.Access
import Docket.Files.Tree
import Docket.Interruption
import Docket.Json.Fields
import Docket.Json.Printer
import Docket.Json.Reader
import Docket.Json.Record
import Docket.Json.Value
import Docket.Main
import Docket.Media.Bytes
import Docket.Media.Checksum
import Docket.Media.Inflate
import Docket.Media.Pdf.File
import Docket.Media.Pdf.Object
import Docket.Media.Pdf.PageText
import Docket.Media.Pdf.Writer
import Docket.Media.Png
import Docket.Media.Raster
import Docket.Media.Xml
import Docket.Media.Zip
import Docket.Pipeline.Error
import Docket.Pipeline.Event
import Docket.Pipeline.Handlers
import Docket.Pipeline.Intake
import Docket.Pipeline.Pass
import Docket.Pipeline.Refusal
import Docket.Pipeline.Step
import Docket.Pipeline.World
import Docket.Proofs.Act
import Docket.Proofs.Exclusion
import Docket.Proofs.Handlers
import Docket.Proofs.History
import Docket.Proofs.Jobs
import Docket.Proofs.Outcome
import Docket.Proofs.Pass
import Docket.Proofs.Recovery
import Docket.Proofs.Conditions
import Docket.Proofs.Publishing
import Docket.Regex.Basic
import Docket.Regex.Compile
import Docket.Regex.OfPattern
import Docket.Regex.Pattern
import Docket.Regex.Reader
import Docket.Regex.Size
import Docket.Rule.Action
import Docket.Rule.AutoMatch
import Docket.Rule.Basic
import Docket.Rule.Condition
import Docket.Rule.Evaluate
import Docket.Rule.Json
import Docket.Rule.Validate
import Docket.Search.Basic
import Docket.Storage.Basic
import Docket.Storage.Layout
import Docket.Store.Documents
import Docket.Store.Error
import Docket.Store.Jobs
import Docket.Store.Metadata
import Docket.Store.Migration
import Docket.Store.Overwrite
import Docket.Store.Rules
import Docket.Store.Tables
import Docket.Text.Clean
import Docket.Text.Count
import Docket.Text.Hex
import Docket.Text.Language
import Docket.Text.Lowercase
import Docket.Text.Path
import Docket.Text.Redact
import Docket.Text.Trim
import Docket.Text.Utf8
import Docket.Unicode.Age
import Docket.Unicode.Case
import Docket.Unicode.Category
import Docket.Unicode.CharSet
import Docket.Unicode.Property
import Docket.Unicode.Script
import Docket.Worker.Handle
import Docket.Worker.Manager
import Docket.Worker.Outcome
import Docket.Worker.Policy
import Docket.Worker.Pool
import Docket.Worker.Report
import Docket.Worker.Status
import Docket.Proofs.Forcing
import Docket.Proofs.Files
import Docket.Proofs.Names
import Docket.Proofs.Relocation
import Docket.Proofs.Reaching
import Docket.Proofs.Vault
import Docket.Proofs.Intake
import Docket.Proofs.Actions
import Docket.Proofs.Moments
import Docket.Proofs.Pulling
import Docket.Proofs.Readable
import Docket.Proofs.Following
import Docket.Proofs.Anchors
import Docket.Proofs.Validation
import Docket.Proofs.Sharing
import Docket.Proofs.Overwriting
import Docket.Proofs.Reports
import Docket.Proofs.Waiting
import Docket.Proofs.Restarts
import Docket.Proofs.Chronology
import Docket.Proofs.Ledger
import Docket.Proofs.Listing
import Docket.Proofs.Announcing
import Docket.Proofs.Deeds
import Docket.Proofs.Readiness
import Docket.Proofs.Stuck
import Docket.Proofs.Stages
import Docket.Proofs.Quarantine
import Docket.Proofs.Catalog
import Docket.Proofs.Transactions
import Docket.Proofs.EntryBatch
import Docket.Proofs.RuleBook
import Docket.Proofs.Snapshot
import Docket.Proofs.Nameless
import Docket.Proofs.Chronicle
import Docket.Proofs.Stopping
import Docket.Proofs.Mishaps
import Docket.Proofs.Findings
import Docket.Proofs.Retrying
import Docket.Proofs.Leftovers
import Docket.Proofs.Converging
import Docket.Proofs.Lowercasing
import Docket.Proofs.Mentions
import Docket.Proofs.IgnoringCase
import Docket.Proofs.Agreement
import Docket.Proofs.Offering
import Docket.Proofs.Redaction
import Docket.Proofs.RuleCodec
import Docket.Proofs.Faults
import Docket.Proofs.Deliveries
import Docket.Proofs.Cleaning
import Docket.Proofs.Addresses
import Docket.Proofs.Pages
import Docket.Proofs.PdfText
import Docket.Proofs.Disclosure
import Docket.Proofs.Placing
import Docket.Proofs.Timestamps
import Docket.Proofs.Upgrades
import Docket.Proofs.Limits
import Docket.Proofs.Normalizing
