import Viewbase.Config
import Viewbase.Database.Action
import Viewbase.Database.Background
import Viewbase.Database.Basic
import Viewbase.Database.Live
import Viewbase.Database.Query
import Viewbase.Database.Schedule
import Viewbase.Database.Temporary
import Viewbase.Database.Write
import Viewbase.Descriptor
import Viewbase.Document
import Viewbase.Error
import Viewbase.Identity
import Viewbase.Journal.Event
import Viewbase.Journal.Metrics
import Viewbase.Journal.Record
import Viewbase.Json.Printer
import Viewbase.Json.Reader
import Viewbase.Json.Value
import Viewbase.Key.Basic
import Viewbase.Key.Order
import Viewbase.Key.Range
import Viewbase.Number.Binary64
import Viewbase.Number.Scaled
import Viewbase.Number.Shortest
import Viewbase.Proofs.Database.Announcements
import Viewbase.Proofs.Database.Attendance
import Viewbase.Proofs.Database.Attention
import Viewbase.Proofs.Database.Beside
import Viewbase.Proofs.Database.Confinement
import Viewbase.Proofs.Database.Course
import Viewbase.Proofs.Database.Current
import Viewbase.Proofs.Database.Deed
import Viewbase.Proofs.Database.Dispatch
import Viewbase.Proofs.Database.Executions
import Viewbase.Proofs.Database.Flight
import Viewbase.Proofs.Database.Hearing
import Viewbase.Proofs.Database.LastSeen
import Viewbase.Proofs.Database.Ledger
import Viewbase.Proofs.Database.Listeners
import Viewbase.Proofs.Database.Moment
import Viewbase.Proofs.Database.Move
import Viewbase.Proofs.Database.Offstage
import Viewbase.Proofs.Database.Outcome
import Viewbase.Proofs.Database.Overtaking
import Viewbase.Proofs.Database.Phases
import Viewbase.Proofs.Database.Places
import Viewbase.Proofs.Database.Refreshing
import Viewbase.Proofs.Database.Resting
import Viewbase.Proofs.Database.Session
import Viewbase.Proofs.Database.Shares
import Viewbase.Proofs.Database.Showing
import Viewbase.Proofs.Database.Silence
import Viewbase.Proofs.Database.Steps
import Viewbase.Proofs.Database.Submission
import Viewbase.Proofs.Database.Subscribers
import Viewbase.Proofs.Database.Tally
import Viewbase.Proofs.Database.Tenancy
import Viewbase.Proofs.Database.Transitions
import Viewbase.Proofs.Database.Upkeep
import Viewbase.Proofs.Key.Truncation
import Viewbase.Proofs.Query.Cancellation
import Viewbase.Proofs.Query.Lifetime
import Viewbase.Proofs.Query.Spelling
import Viewbase.Proofs.Store.Aftermath
import Viewbase.Proofs.Store.Audience
import Viewbase.Proofs.Store.Changes
import Viewbase.Proofs.Store.Enumeration
import Viewbase.Proofs.Store.Grouping
import Viewbase.Proofs.Store.Housing
import Viewbase.Proofs.Store.Incremental
import Viewbase.Proofs.Store.Interference
import Viewbase.Proofs.Store.Later
import Viewbase.Proofs.Store.Likeness
import Viewbase.Proofs.Store.Mirror
import Viewbase.Proofs.Store.Points
import Viewbase.Proofs.Store.Reflection
import Viewbase.Proofs.Store.Renaming
import Viewbase.Proofs.Store.Rollup
import Viewbase.Proofs.Store.Snapshot
import Viewbase.Proofs.Store.Stable
import Viewbase.Proofs.Store.Succession
import Viewbase.Proofs.Store.Timeline
import Viewbase.Proofs.Tree.Emissions
import Viewbase.Query.Live
import Viewbase.Query.Params
import Viewbase.Query.Run
import Viewbase.Query.Settings
import Viewbase.Query.Temporary
import Viewbase.Request
import Viewbase.Store.Anew
import Viewbase.Store.Basic
import Viewbase.Store.History
import Viewbase.Store.Index
import Viewbase.Store.Refresh
import Viewbase.Store.Scan
import Viewbase.Store.Write
import Viewbase.Text.Blank
import Viewbase.Text.Hex
import Viewbase.Text.Order
import Viewbase.Tree
import Viewbase.Tree.Sorted
import Viewbase.Proofs.Database.Lookup
import Viewbase.Proofs.Database.Custody
import Viewbase.Proofs.Database.Dwindling
import Viewbase.Proofs.Database.Keeping
import Viewbase.Proofs.Database.Refusal
import Viewbase.Proofs.Store.Bodies
import Viewbase.Proofs.Database.Datedness
import Viewbase.Proofs.Database.Sightings
import Viewbase.Proofs.Database.Deliveries
import Viewbase.Proofs.Database.Annals
import Viewbase.Proofs.Number.Reading
import Viewbase.Proofs.Number.Whole
import Viewbase.Proofs.Key.Collation
import Viewbase.Proofs.Key.Transit
import Viewbase.Proofs.Store.Totals
import Viewbase.Proofs.Store.Provenance
import Viewbase.Proofs.Store.Handback
import Viewbase.Proofs.Text.Numerals
import Viewbase.Proofs.Journal.Line
import Viewbase.Proofs.Store.Chronicle
import Viewbase.Proofs.Store.Revisions
import Viewbase.Proofs.Store.Naming
import Viewbase.Proofs.Store.Backlog
import Viewbase.Proofs.Store.Registry
import Viewbase.Proofs.Store.Intervals
import Viewbase.Proofs.Key.Lexicographic
