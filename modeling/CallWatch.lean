import CallWatch.CallSite.Backtrace
import CallWatch.Config.Basic
import CallWatch.Config.Variables
import CallWatch.Count
import CallWatch.Endpoint
import CallWatch.Event
import CallWatch.Expectation.Basic
import CallWatch.Expectation.Bounds
import CallWatch.Expectation.Draft
import CallWatch.Expectation.Measure
import CallWatch.Fault.Attempt
import CallWatch.Fault.Document
import CallWatch.Fault.Registry
import CallWatch.Fault.Rules
import CallWatch.Fault.Status
import CallWatch.Fault.Table
import CallWatch.Fault.Target
import CallWatch.Filter.Endpoint
import CallWatch.Filter.Text
import CallWatch.Filter.Threads
import CallWatch.Json.Form
import CallWatch.Json.Format.Basic
import CallWatch.Json.Format.Config
import CallWatch.Json.Format.Document
import CallWatch.Json.Format.Names
import CallWatch.Json.Format.Packet
import CallWatch.Json.Format.Tally
import CallWatch.Json.Number
import CallWatch.Json.Quoted
import CallWatch.Json.Reader
import CallWatch.Json.Value
import CallWatch.Json.Writer
import CallWatch.Key
import CallWatch.Key.Listing
import CallWatch.Ledger
import CallWatch.Origin
import CallWatch.Packet
import CallWatch.Session.Action
import CallWatch.Session.Names
import CallWatch.Session.Report
import CallWatch.Session.Run
import CallWatch.Session.State
import CallWatch.Span
import CallWatch.Statement
import CallWatch.Summary
import CallWatch.Tally
import CallWatch.Tap
import CallWatch.Text.Blank
import CallWatch.Text.Glob.Braces
import CallWatch.Text.Glob.Match
import CallWatch.Text.Glob.State
import CallWatch.Text.Lines
import CallWatch.Text.Lower
import CallWatch.Text.Numeral
import CallWatch.Thread
import CallWatch.Traffic
import CallWatch.Window.Basic
import CallWatch.Window.Failure
import CallWatch.Window.Guard
import CallWatch.Window.Verify
import CallWatch.Proofs.Key.Firsts
import CallWatch.Proofs.Summary.Roll
import CallWatch.Proofs.Summary.Index
import CallWatch.Proofs.Ledger.Keeping
import CallWatch.Proofs.Ledger.Agreement
import CallWatch.Proofs.Session.History
import CallWatch.Proofs.Session.Beginnings
import CallWatch.Proofs.Window.Gains
import CallWatch.Proofs.Packet.Runs
import CallWatch.Proofs.Traffic.Streams
import CallWatch.Proofs.Session.Recall
import CallWatch.Proofs.Window.Observed
import CallWatch.Proofs.Window.Bounds
import CallWatch.Proofs.Expectation.Order
import CallWatch.Proofs.Window.Shares
import CallWatch.Proofs.Window.Findings
import CallWatch.Proofs.Session.Moments
import CallWatch.Proofs.Session.Closing
import CallWatch.Proofs.Session.Refusal
import CallWatch.Proofs.Session.Guarding
import CallWatch.Proofs.Packet.Volume
import CallWatch.Proofs.Traffic.Volume
import CallWatch.Proofs.Window.Sums
import CallWatch.Proofs.Session.Tapped
import CallWatch.Proofs.Window.Payload
import CallWatch.Proofs.Fault.Listing
import CallWatch.Proofs.Fault.Operations
import CallWatch.Proofs.Fault.Discovery
import CallWatch.Proofs.Fault.Shift
import CallWatch.Proofs.Fault.Passive
import CallWatch.Proofs.Text.Digits
import CallWatch.Proofs.Json.Reads
import CallWatch.Proofs.Json.Values
import CallWatch.Proofs.Json.Forms
import CallWatch.Proofs.Json.Documents
import CallWatch.Proofs.Json.Records
import CallWatch.Proofs.Fault.Restoring
import CallWatch.Proofs.Fault.Persistence
import CallWatch.Proofs.Fault.Apart
import CallWatch.Proofs.Fault.Contacts
import CallWatch.Proofs.Text.Numerals
import CallWatch.Proofs.Filter.Addresses
import CallWatch.Proofs.Packet.Joining
import CallWatch.Proofs.Packet.Thresholds
import CallWatch.Proofs.Packet.Partition
import CallWatch.Proofs.Key.Regroup
import CallWatch.Proofs.Ledger.Grouping
import CallWatch.Proofs.Window.Kinds
import CallWatch.Proofs.Expectation.Given
import CallWatch.Proofs.Expectation.Building
import CallWatch.Proofs.Traffic.Fresh
import CallWatch.Proofs.Expectation.Attainable
import CallWatch.Proofs.Fault.Loading
import CallWatch.Proofs.Fault.Attempts
import CallWatch.Proofs.Fault.Scopes
import CallWatch.Proofs.Text.Spans
import CallWatch.Proofs.Text.Lowering
import CallWatch.Proofs.Statement.Keywords
import CallWatch.Proofs.Text.Lines
import CallWatch.Proofs.CallSite.Trimming
import CallWatch.Proofs.Summary.Merges
import CallWatch.Proofs.Thread.Groups
