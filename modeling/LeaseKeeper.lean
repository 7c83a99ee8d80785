import LeaseKeeper.CommandLine.Help
import LeaseKeeper.CommandLine.Parse
import LeaseKeeper.CommandLine.Settings
import LeaseKeeper.CommandLine.Switch
import LeaseKeeper.Daemon.Process
import LeaseKeeper.Daemon.Running
import LeaseKeeper.Daemon.Setup
import LeaseKeeper.Daemon.TaskSet
import LeaseKeeper.Decimal.Shortest
import LeaseKeeper.Decimal.Whole
import LeaseKeeper.Endpoint.Pool
import LeaseKeeper.Endpoint.Rehearsal
import LeaseKeeper.Endpoint.Upkeep
import LeaseKeeper.Endpoint.UpkeepRehearsal
import LeaseKeeper.FileSystem.Basic
import LeaseKeeper.FileSystem.Operations
import LeaseKeeper.FileSystem.Path
import LeaseKeeper.FileSystem.Replace
import LeaseKeeper.HardwareAddress
import LeaseKeeper.Http.Access
import LeaseKeeper.Http.Message
import LeaseKeeper.Http.Service
import LeaseKeeper.Http.StatusDocument
import LeaseKeeper.IoFailure
import LeaseKeeper.Json.Fault
import LeaseKeeper.Json.NumberScan
import LeaseKeeper.Json.Punctuation
import LeaseKeeper.Json.Read
import LeaseKeeper.Json.Scan
import LeaseKeeper.Json.Skip
import LeaseKeeper.Json.StringScan
import LeaseKeeper.Json.Value
import LeaseKeeper.Lease
import LeaseKeeper.LeaseFile.Error
import LeaseKeeper.LeaseFile.Read
import LeaseKeeper.LeaseFile.Write
import LeaseKeeper.Main
import LeaseKeeper.Metrics.Exposition
import LeaseKeeper.Metrics.Registry
import LeaseKeeper.Net.Address
import LeaseKeeper.Net.AddressSupply
import LeaseKeeper.Net.Ipv4
import LeaseKeeper.Net.Ipv6
import LeaseKeeper.Net.Private
import LeaseKeeper.Notification.Signal
import LeaseKeeper.Notification.SignalTarget
import LeaseKeeper.Notification.Subscriber
import LeaseKeeper.StatusPage
import LeaseKeeper.Store.LeaseStore
import LeaseKeeper.Store.Session
import LeaseKeeper.Store.Storage
import LeaseKeeper.Text.Blank
import LeaseKeeper.Text.Digits
import LeaseKeeper.Text.Fields
import LeaseKeeper.Text.Hidden
import LeaseKeeper.Text.Quoted
import LeaseKeeper.Text.SignedNumber
import LeaseKeeper.Text.Terminal
import LeaseKeeper.Text.Utf8
import LeaseKeeper.Time.Date
import LeaseKeeper.Time.Delay
import LeaseKeeper.Time.Elapsed
import LeaseKeeper.Time.Instant
import LeaseKeeper.Time.Rfc3339
import LeaseKeeper.VendorTable
import LeaseKeeper.Proofs.Text.Numerals
import LeaseKeeper.Proofs.Text.Utf8
import LeaseKeeper.Proofs.Time.Calendar
import LeaseKeeper.Proofs.Time.Rfc3339
import LeaseKeeper.Proofs.HardwareAddress
import LeaseKeeper.Proofs.Net.Ipv4
import LeaseKeeper.Proofs.Json.Strings
import LeaseKeeper.Proofs.Json.Numbers
import LeaseKeeper.Proofs.Json.Layout
import LeaseKeeper.Proofs.LeaseFile.Record
import LeaseKeeper.Proofs.LeaseFile.RoundTrip
import LeaseKeeper.Proofs.FileSystem.Entries
import LeaseKeeper.Proofs.FileSystem.Walk
import LeaseKeeper.Proofs.FileSystem.Approach
import LeaseKeeper.Proofs.FileSystem.Fresh
import LeaseKeeper.Proofs.FileSystem.Replacement
import LeaseKeeper.Proofs.FileSystem.Grounding
import LeaseKeeper.Proofs.Store.Atomic
import LeaseKeeper.Proofs.Store.Interruption
import LeaseKeeper.Proofs.Store.Run
import LeaseKeeper.Proofs.Store.Agreement
import LeaseKeeper.Proofs.Store.Restart
import LeaseKeeper.Proofs.Endpoint.Live
import LeaseKeeper.Proofs.Endpoint.Reconciliation
import LeaseKeeper.Proofs.Endpoint.Lifetimes
import LeaseKeeper.Proofs.Endpoint.Requests
import LeaseKeeper.Proofs.Json.Grammar
import LeaseKeeper.Proofs.Json.Scanning
import LeaseKeeper.Proofs.Json.Skipping
import LeaseKeeper.Proofs.LeaseFile.Format
import LeaseKeeper.Proofs.LeaseFile.Reading
import LeaseKeeper.Proofs.Notification.Changes
import LeaseKeeper.Proofs.Daemon.Run
import LeaseKeeper.Proofs.Daemon.Settling
import LeaseKeeper.Proofs.Daemon.Failure
import LeaseKeeper.Proofs.Net.Ipv6
import LeaseKeeper.Proofs.Http.Access
import LeaseKeeper.Proofs.Http.Client
import LeaseKeeper.Proofs.Http.StatusDocument
import LeaseKeeper.Proofs.Http.Disclosure
import LeaseKeeper.Proofs.Endpoint.Independence
import LeaseKeeper.Proofs.Endpoint.Continuity
import LeaseKeeper.Proofs.Except
import LeaseKeeper.Proofs.Time.Spelling
import LeaseKeeper.Proofs.Json.Punctuation
import LeaseKeeper.Proofs.Json.Streaming
import LeaseKeeper.Proofs.LeaseFile.Steps
import LeaseKeeper.Proofs.LeaseFile.Rewriting
import LeaseKeeper.Proofs.LeaseFile.Truncation
import LeaseKeeper.Proofs.LeaseFile.Expiry
import LeaseKeeper.Proofs.Daemon.TaskSet
import LeaseKeeper.Proofs.Daemon.Verdict
import LeaseKeeper.Proofs.Time.Order
import LeaseKeeper.Proofs.Status.Ordering
import LeaseKeeper.Proofs.Time.Elapsed
import LeaseKeeper.Proofs.Status.Since
import LeaseKeeper.Proofs.Text.Lines
import LeaseKeeper.Proofs.VendorTable
import LeaseKeeper.Proofs.Text.Hexadecimal
import LeaseKeeper.Proofs.Text.Integers
import LeaseKeeper.Proofs.Notification.Processes
import LeaseKeeper.Proofs.VendorTable.Listing
import LeaseKeeper.Proofs.Net.Listing
import LeaseKeeper.Proofs.Net.Private
import LeaseKeeper.Proofs.Net.Interfaces
import LeaseKeeper.Proofs.HardwareAddress.Normal
import LeaseKeeper.Proofs.CommandLine.Occurrence
import LeaseKeeper.Proofs.CommandLine.Reading
import LeaseKeeper.Proofs.CommandLine.Meaning
import LeaseKeeper.Proofs.Daemon.Launch
import LeaseKeeper.Proofs.CommandLine.Rearrangement
