import Directive.Text.Blank
import Directive.Text.Utf8
import Directive.Text.Span
import Directive.Text.Lines
import Directive.Symbol
import Directive.Context
import Directive.Scan
import Directive.Descriptor
import Directive.Token
import Directive.Descriptor.Parser
import Directive.Descriptor.Printer
import Directive.Json.Writer
import Directive.Descriptor.Json
import Directive.OrderedMap
import Directive.Lru
import Directive.Session
import Directive.Decimal.Shortest
import Directive.Text.Unprintable
import Directive.Text.Quoted
import Directive.Json.Fault
import Directive.Json.Reader
import Directive.Json.Text
import Directive.Json.Number
import Directive.Json.Skip
import Directive.Json.Record
import Directive.Config
import Directive.Batch
import Directive.CommandLine
import Directive.Run
import Directive.Main
import Directive.Proofs.Text.Trim
import Directive.Proofs.Scan.Depth
import Directive.Proofs.Scan.Bytes
import Directive.Proofs.Scan.Parts
import Directive.Proofs.Scan.Places
import Directive.Proofs.Scan.Separators
import Directive.Proofs.Scan.Whole
import Directive.Proofs.Token.Words
import Directive.Proofs.Token.Arguments
import Directive.Proofs.Scan.Words
import Directive.Proofs.Scan.Pipes
import Directive.Proofs.Token.Layout
import Directive.Proofs.Descriptor.WellFormed
import Directive.Proofs.Descriptor.RoundTrip
import Directive.Proofs.Descriptor.Written
import Directive.Proofs.Descriptor.Rereading
import Directive.Proofs.Descriptor.Quoting
import Directive.Proofs.Lru.Entries
import Directive.Proofs.Lru.History
import Directive.Proofs.Session.Steps
import Directive.Proofs.Session.Transparent
import Directive.Proofs.Session.Reuse
import Directive.Proofs.Text.Lines
import Directive.Proofs.Batch.Outcome
import Directive.Proofs.Json.Reading
import Directive.Proofs.Json.Written
import Directive.Proofs.Descriptor.Json
import Directive.Proofs.Descriptor.Composition
import Directive.Proofs.Text.Span
import Directive.Proofs.Scan.Characters
import Directive.Proofs.Session.Counts
import Directive.Proofs.Json.OneLine
import Directive.Proofs.Token.Cutting
import Directive.Proofs.Batch.Lines
import Directive.Proofs.Descriptor.Blanks
import Directive.Proofs.Batch.Sources
import Directive.Proofs.Descriptor.Renaming
import Directive.Proofs.Json.Grammar
import Directive.Proofs.Json.Inversion
import Directive.Proofs.Json.Strings
import Directive.Proofs.Json.Skipping
import Directive.Proofs.Json.Values
import Directive.Proofs.Json.Members
import Directive.Proofs.Json.Fields
import Directive.Proofs.Json.Rearranged
import Directive.Proofs.Descriptor.Members
import Directive.Proofs.Scan.Counters
import Directive.Proofs.Descriptor.Constants
import Directive.Proofs.Json.Naturals
import Directive.Proofs.Batch.Capacity
import Directive.Proofs.Batch.Printing
import Directive.Proofs.Batch.Ending
import Directive.Proofs.Session.Schedules
