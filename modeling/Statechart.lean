import Statechart.Chart.Basic
import Statechart.Chart.Compile
import Statechart.Chart.Defect
import Statechart.Chart.Reader
import Statechart.Chart.Source
import Statechart.Chart.Store
import Statechart.Chart.Writer
import Statechart.Checksum
import Statechart.Command
import Statechart.Decimal.Binary
import Statechart.Decimal.Layout
import Statechart.Decimal.Reader
import Statechart.Decimal.Shortest
import Statechart.Delay
import Statechart.Document
import Statechart.Event.Basic
import Statechart.Event.Name
import Statechart.Expr.Basic
import Statechart.Expr.Eval
import Statechart.Expr.ParseError
import Statechart.Expr.Parser
import Statechart.Fault
import Statechart.Files
import Statechart.Json.Basic
import Statechart.Json.Parser
import Statechart.Json.Printer
import Statechart.Machine.Action
import Statechart.Machine.Basic
import Statechart.Machine.Host
import Statechart.Machine.Log
import Statechart.Machine.Microstep
import Statechart.Machine.Run
import Statechart.Machine.Selection
import Statechart.Machine.Snapshot
import Statechart.Main
import Statechart.Proofs.Chart.Adding
import Statechart.Proofs.Chart.Bounds
import Statechart.Proofs.Chart.Closure
import Statechart.Proofs.Chart.Compiled
import Statechart.Proofs.Chart.Completion
import Statechart.Proofs.Chart.Conditions
import Statechart.Proofs.Chart.Configuration
import Statechart.Proofs.Chart.Conflicts
import Statechart.Proofs.Chart.Defaults
import Statechart.Proofs.Chart.Draft
import Statechart.Proofs.Chart.Enterable
import Statechart.Proofs.Chart.Entries
import Statechart.Proofs.Chart.Entry
import Statechart.Proofs.Chart.Layout
import Statechart.Proofs.Chart.Leading
import Statechart.Proofs.Chart.Legality
import Statechart.Proofs.Chart.Locality
import Statechart.Proofs.Chart.Numbering
import Statechart.Proofs.Chart.Peopling
import Statechart.Proofs.Chart.Positions
import Statechart.Proofs.Chart.Remembering
import Statechart.Proofs.Chart.Returning
import Statechart.Proofs.Chart.Scope
import Statechart.Proofs.Chart.Taking
import Statechart.Proofs.Chart.Termination
import Statechart.Proofs.Chart.Tree
import Statechart.Proofs.Decimal.Integers
import Statechart.Proofs.Document.Chart
import Statechart.Proofs.Document.Meaning
import Statechart.Proofs.Document.Reading
import Statechart.Proofs.Document.Rounds
import Statechart.Proofs.Document.Writing
import Statechart.Proofs.Event.Decoding
import Statechart.Proofs.Event.Name
import Statechart.Proofs.Except
import Statechart.Proofs.Expr.Paths
import Statechart.Proofs.Expr.Printing
import Statechart.Proofs.Expr.Words
import Statechart.Proofs.Machine.Abiding
import Statechart.Proofs.Machine.Aborting
import Statechart.Proofs.Machine.Breakdown
import Statechart.Proofs.Machine.Closure
import Statechart.Proofs.Machine.Completion
import Statechart.Proofs.Machine.Contents
import Statechart.Proofs.Machine.Counting
import Statechart.Proofs.Machine.Custody
import Statechart.Proofs.Machine.Customs
import Statechart.Proofs.Machine.Entering
import Statechart.Proofs.Machine.Fitness
import Statechart.Proofs.Machine.Frame
import Statechart.Proofs.Machine.Hearing
import Statechart.Proofs.Machine.Legality
import Statechart.Proofs.Machine.Lifecycle
import Statechart.Proofs.Machine.LiveLock
import Statechart.Proofs.Machine.Mail
import Statechart.Proofs.Machine.Microstep
import Statechart.Proofs.Machine.Mirror
import Statechart.Proofs.Machine.Ordering
import Statechart.Proofs.Machine.Orderly
import Statechart.Proofs.Machine.Parts
import Statechart.Proofs.Machine.Placement
import Statechart.Proofs.Machine.Refusing
import Statechart.Proofs.Machine.Releasing
import Statechart.Proofs.Machine.Resumption
import Statechart.Proofs.Machine.Returning
import Statechart.Proofs.Machine.Run
import Statechart.Proofs.Machine.Selecting
import Statechart.Proofs.Machine.Services
import Statechart.Proofs.Machine.Showing
import Statechart.Proofs.Machine.Stability
import Statechart.Proofs.Machine.Taking
import Statechart.Proofs.Machine.Tamper
import Statechart.Proofs.Machine.Waiting
import Statechart.Proofs.Router.Deeds
import Statechart.Proofs.Router.Dispatching
import Statechart.Proofs.Router.Estates
import Statechart.Proofs.Router.Fifo
import Statechart.Proofs.Router.Integrity
import Statechart.Proofs.Router.Isolation
import Statechart.Proofs.Router.Mail
import Statechart.Proofs.Router.Orphans
import Statechart.Proofs.Router.Outcomes
import Statechart.Proofs.Router.Payload
import Statechart.Proofs.Router.Registry
import Statechart.Proofs.Router.Replies
import Statechart.Proofs.Router.Services
import Statechart.Proofs.Router.Sessions
import Statechart.Proofs.Router.Sleep
import Statechart.Proofs.Snapshot.Bucket
import Statechart.Proofs.Snapshot.Faithful
import Statechart.Proofs.Snapshot.Reading
import Statechart.Proofs.Snapshot.RoundTrip
import Statechart.Proofs.Snapshot.Sections
import Statechart.Proofs.Snapshot.Storage
import Statechart.Proofs.Value.Bridge
import Statechart.Proofs.Value.Building
import Statechart.Proofs.Value.Copying
import Statechart.Proofs.Value.Correspondence
import Statechart.Proofs.Value.Cycle
import Statechart.Proofs.Value.Detection
import Statechart.Proofs.Value.Freezing
import Statechart.Proofs.Value.Paths
import Statechart.Proofs.Value.Realm
import Statechart.Proofs.Value.Replica
import Statechart.Proofs.Value.Sharing
import Statechart.Proofs.Value.Soundness
import Statechart.Proofs.Value.Topology
import Statechart.Proofs.Value.Writing
import Statechart.Router.Address
import Statechart.Router.Basic
import Statechart.Router.Error
import Statechart.Router.Run
import Statechart.Router.Scheduler
import Statechart.Settings
import Statechart.Snapshot.Bucket
import Statechart.Snapshot.Defect
import Statechart.Snapshot.Storage
import Statechart.Text.Blank
import Statechart.Text.Quoted
import Statechart.Text.Visible
import Statechart.Text.WordChar
import Statechart.Value.Basic
import Statechart.Value.Copy
import Statechart.Value.DateTime
import Statechart.Value.Heap
import Statechart.Value.Show
import Statechart.Value.Update
import Statechart.View.Chart
import Statechart.View.Machine
import Statechart.View.Router
import Statechart.View.Value
import Statechart.Yaml.Cursor
import Statechart.Yaml.Reader
import Statechart.Yaml.Scalar
import Statechart.Yaml.Tag
import Statechart.Yaml.Text
import Statechart.Yaml.Token
import Statechart.Yaml.Writer
