import Allotment.Word
import Allotment.Dimension
import Allotment.Report
import Allotment.Signal
import Allotment.SystemFault
import Allotment.Text.Blank
import Allotment.Text.Hex
import Allotment.Text.Lines
import Allotment.Text.Numeral
import Allotment.Text.Reader
import Allotment.Text.Utf8
import Allotment.Binary64.Basic
import Allotment.Binary64.Decimal
import Allotment.Resource.Basic
import Allotment.Resource.Scaling
import Allotment.Resource.Multiples
import Allotment.Yardstick
import Allotment.Demand.Interval
import Allotment.Demand.Profile
import Allotment.Reservation.Id
import Allotment.Reservation.Basic
import Allotment.Reservation.Admission
import Allotment.Ledger.Basic
import Allotment.Device.Gauge
import Allotment.Device.Placement
import Allotment.Fairness.Reorder
import Allotment.Fairness.Order
import Allotment.Document.Value
import Allotment.Document.Fields
import Allotment.Document.Record
import Allotment.Toml.Scalar
import Allotment.Toml.Tree
import Allotment.Toml.Document
import Allotment.Settings.Basic
import Allotment.Settings.Read
import Allotment.Status.Row
import Allotment.Status.Listing
import Allotment.Ancestry.Stat
import Allotment.Ancestry.Basic
import Allotment.Survey
import Allotment.Usage.Tally
import Allotment.Watch.Basic
import Allotment.Watch.Procedure
import Allotment.Watch.Session
import Allotment.Watch.Request
import Allotment.Command.Run
import Allotment.Command.Source
import Allotment.Shell.Host
import Allotment.Proofs.Demand.Bucket
import Allotment.Proofs.Demand.Load
import Allotment.Proofs.Demand.Canonical
import Allotment.Proofs.Demand.Sweep
import Allotment.Proofs.Demand.Sampling
import Allotment.Proofs.Demand.Alignment
import Allotment.Proofs.Demand.Arithmetic
import Allotment.Proofs.Ledger.Run
import Allotment.Proofs.Ledger.Timely
import Allotment.Proofs.Reservation.Load
import Allotment.Proofs.Ledger.Book
import Allotment.Proofs.Ledger.Balance
import Allotment.Proofs.Ledger.Accounting
import Allotment.Proofs.Ledger.Commitment
import Allotment.Proofs.Ledger.Admission
import Allotment.Proofs.Ledger.Canonical
import Allotment.Proofs.Ledger.Replacement
import Allotment.Proofs.Ledger.Batch
import Allotment.Proofs.Ledger.Dimension
import Allotment.Proofs.Ledger.Withdrawal
import Allotment.Proofs.Reservation.Shortfall
import Allotment.Proofs.Reservation.Steps
import Allotment.Proofs.Ledger.Queries
import Allotment.Proofs.Fairness.Preorder
import Allotment.Proofs.Fairness.Reorder
import Allotment.Proofs.Fairness.Sort
import Allotment.Proofs.Fairness.Dimensions
import Allotment.Proofs.Ledger.Ownership
import Allotment.Ledger.Procedure
import Allotment.Proofs.Ledger.Procedure
import Allotment.Proofs.Ledger.Refusal
import Allotment.Proofs.Usage.Trace
import Allotment.Proofs.Usage.Entry
import Allotment.Proofs.Usage.Run
import Allotment.Proofs.Usage.Estimate
import Allotment.Proofs.Usage.History
import Allotment.Proofs.Ancestry.Walk
import Allotment.Proofs.Ancestry.Longest
import Allotment.Proofs.Survey.Memory
import Allotment.Proofs.Survey.Devices
import Allotment.Proofs.Text.Digit
import Allotment.Proofs.Ancestry.Stat
import Allotment.Proofs.Text.Reader
import Allotment.Proofs.Status.Row
import Allotment.Proofs.Status.Figures
import Allotment.Proofs.Survey.Rows
import Allotment.Proofs.Watch.Procedure
import Allotment.Proofs.Watch.Run
import Allotment.Proofs.Watch.Totals
import Allotment.Proofs.Watch.Atomicity
import Allotment.Proofs.Watch.Schedule
import Allotment.Watch.Task
import Allotment.Proofs.Watch.Task
import Allotment.Text.Matcher
import Allotment.Status.Pattern
import Allotment.Proofs.Text.Matcher
import Allotment.Proofs.Status.Lead
import Allotment.Proofs.Status.Ending
import Allotment.Proofs.Status.Sharing
import Allotment.Proofs.Status.Pattern
import Allotment.Proofs.Status.Layout
import Allotment.Proofs.Binary64.Quotient
import Allotment.Proofs.Binary64.NearestEven
import Allotment.Proofs.Binary64.Significand
import Allotment.Proofs.Binary64.Packing
import Allotment.Proofs.Binary64.Order
import Allotment.Proofs.Binary64.Division
import Allotment.Proofs.Yardstick.Preorder
import Allotment.Proofs.Yardstick.Domination
import Allotment.Proofs.Yardstick.Containers
import Allotment.Proofs.Fairness.DominantShare
import Allotment.Proofs.Fairness.Growth
import Allotment.Proofs.Resource.Multiples
import Allotment.Proofs.Resource.Normalize
import Allotment.Proofs.Resource.Rounding
import Allotment.Proofs.Device.Placement
import Allotment.Proofs.Ledger.Archive
