import CollectionRunner.BaseUrl
import CollectionRunner.Cli.Options
import CollectionRunner.Cli.Program
import CollectionRunner.Collection.Basic
import CollectionRunner.Collection.Decoder
import CollectionRunner.Collection.Encoder
import CollectionRunner.Collection.Fixture
import CollectionRunner.Collection.Leaves
import CollectionRunner.Collection.Loading
import CollectionRunner.Collection.RequestUrl
import CollectionRunner.Config
import CollectionRunner.Console.Lines
import CollectionRunner.Console.Paint
import CollectionRunner.Decimal.Binary64
import CollectionRunner.Decimal.Shortest
import CollectionRunner.EnvFile.Assignment
import CollectionRunner.EnvFile.Line
import CollectionRunner.EnvFile.Loading
import CollectionRunner.Environment
import CollectionRunner.External.Engine
import CollectionRunner.External.Export
import CollectionRunner.External.Invocation
import CollectionRunner.FileSystem
import CollectionRunner.Json.Decoder
import CollectionRunner.Json.Document
import CollectionRunner.Json.Printer
import CollectionRunner.Json.Scanner
import CollectionRunner.Json.Value
import CollectionRunner.Keyed
import CollectionRunner.Main
import CollectionRunner.Path
import CollectionRunner.Placeholder
import CollectionRunner.Problem
import CollectionRunner.Proofs.Collection.Faithful
import CollectionRunner.Proofs.Collection.NormalForm
import CollectionRunner.Proofs.Collection.RoundTrip
import CollectionRunner.Proofs.Collection.UploadWalk
import CollectionRunner.Proofs.Collection.Uploads
import CollectionRunner.Proofs.External.Verdict
import CollectionRunner.Proofs.FileSystem.Written
import CollectionRunner.Proofs.Json.Canonical
import CollectionRunner.Proofs.Json.Decoded
import CollectionRunner.Proofs.Json.Numerals
import CollectionRunner.Proofs.Json.Sorted
import CollectionRunner.Proofs.Run.Independence
import CollectionRunner.Proofs.Run.Recording
import CollectionRunner.Proofs.Run.Scripts
import CollectionRunner.Proofs.Run.Verdict
import CollectionRunner.Proofs.Script.Blocks
import CollectionRunner.Proofs.Script.Calls
import CollectionRunner.Proofs.Script.Entries
import CollectionRunner.Proofs.Script.Forms
import CollectionRunner.Proofs.Script.Leftover
import CollectionRunner.Proofs.Script.Marker
import CollectionRunner.Proofs.Script.Spans
import CollectionRunner.Proofs.Script.Statuses
import CollectionRunner.Proofs.Settings.Assigned
import CollectionRunner.Proofs.Settings.Order
import CollectionRunner.Proofs.Settings.Precedence
import CollectionRunner.Proofs.Text.ByteOrder
import CollectionRunner.Request.Form
import CollectionRunner.Request.Message
import CollectionRunner.Request.Multipart
import CollectionRunner.Request.Preparation
import CollectionRunner.Run.Engine
import CollectionRunner.Run.Instant
import CollectionRunner.Run.Native
import CollectionRunner.Run.Network
import CollectionRunner.Run.Once
import CollectionRunner.Run.Report
import CollectionRunner.Run.Summary
import CollectionRunner.Run.World
import CollectionRunner.Script.Check
import CollectionRunner.Script.Pattern
import CollectionRunner.Script.Span
import CollectionRunner.Settings
import CollectionRunner.Text.Base64
import CollectionRunner.Text.Blank
import CollectionRunner.Text.Column
import CollectionRunner.Text.Hex
import CollectionRunner.Text.Letter
import CollectionRunner.Text.Printable
import CollectionRunner.Text.Quoted
import CollectionRunner.Text.Ranges
import CollectionRunner.Text.Utf8
import CollectionRunner.Url.Address
import CollectionRunner.Url.Basic
import CollectionRunner.Url.Domain
import CollectionRunner.Url.Parser
import CollectionRunner.Url.Percent
import CollectionRunner.Url.Punycode
import CollectionRunner.Variables
import CollectionRunner.Warning
import CollectionRunner.Proofs.Cli.Exit
import CollectionRunner.Proofs.Collection.Listing
import CollectionRunner.Proofs.Run.Effective
import CollectionRunner.Proofs.FileSystem.Trail
import CollectionRunner.Proofs.Run.Carried
import CollectionRunner.Proofs.Run.Reported
import CollectionRunner.Proofs.Json.Reread
import CollectionRunner.Proofs.Json.Restored
import CollectionRunner.Proofs.Collection.Restored
import CollectionRunner.Proofs.External.Staged
import CollectionRunner.Proofs.Placeholder.Occurrences
import CollectionRunner.Proofs.FileSystem.Directory
import CollectionRunner.Proofs.Request.Unresolved
import CollectionRunner.Proofs.Settings.Chosen
import CollectionRunner.Proofs.FileSystem.StartedIn
import CollectionRunner.Proofs.Cli.StartedIn
import CollectionRunner.Proofs.Text.Utf8
import CollectionRunner.Proofs.Request.Draft
import CollectionRunner.Proofs.Request.Scheme
import CollectionRunner.Proofs.Request.ContentType
import CollectionRunner.Proofs.Request.FormText
import CollectionRunner.Proofs.Request.Forms
import CollectionRunner.Proofs.Request.PartsText
import CollectionRunner.Proofs.Script.EntryLines
import CollectionRunner.Proofs.Script.Titles
import CollectionRunner.Proofs.Script.WholeScript
import CollectionRunner.Proofs.External.Entries
import CollectionRunner.Proofs.External.Errors
import CollectionRunner.Proofs.Environment.History
import CollectionRunner.Proofs.External.RunTime
import CollectionRunner.Proofs.Console.Colour
import CollectionRunner.Proofs.Console.Failures
import CollectionRunner.Proofs.Environment.Lookup
import CollectionRunner.Proofs.Settings.Port
import CollectionRunner.Proofs.Collection.AddressParts
import CollectionRunner.Proofs.Text.Boundaries
import CollectionRunner.Proofs.Script.ByteScanner
