import Winnow.Main
import Winnow.Occurrence
import Winnow.Pool.Schedule
import Winnow.Queue.Calls
import Winnow.Proofs.Outline.Node
import Winnow.Proofs.Table.Cell
import Winnow.Proofs.Outline.Follows
import Winnow.Proofs.Outline.Descent
import Winnow.Proofs.Outline.Insertion
import Winnow.Proofs.Outline.Contents
import Winnow.Proofs.Outline.Reading
import Winnow.Proofs.Outline.Shape
import Winnow.Proofs.Outline.Lookup
import Winnow.Proofs.Layouts
import Winnow.Proofs.WellFormed
import Winnow.Proofs.Scan.Skipping
import Winnow.Proofs.Scan.Verdicts
import Winnow.Proofs.Session
import Winnow.Proofs.Session.Compilation
import Winnow.Proofs.Tree.PathOrder
import Winnow.Proofs.Pool.Moves
import Winnow.Proofs.Pool.Order
import Winnow.Proofs.Pool.Progress
import Winnow.Proofs.Pool.Account
import Winnow.Proofs.Pool.Shutdown
import Winnow.Proofs.Pool.Outcome
import Winnow.Proofs.Session.Permuted
import Winnow.Proofs.Alternatives
import Winnow.Proofs.Session.Recased
import Winnow.Proofs.Queue
import Winnow.Proofs.Pool.Scans
import Winnow.Proofs.Pool.Cancelled
import Winnow.Proofs.Scan.Order
import Winnow.Proofs.Utf8
import Winnow.Proofs.Image
import Winnow.Proofs.Refusal
import Winnow.Proofs.Scan.Stopping
import Winnow.Proofs.Outline.Accounting
import Winnow.Proofs.Pattern
import Winnow.Proofs.Reinsertion
import Winnow.Proofs.GroupNumbers
import Winnow.Proofs.Slips
import Winnow.Proofs.Image.Canonical
import Winnow.Proofs.Image.Foreign
import Winnow.Proofs.Tree.Resolve
import Winnow.Proofs.Walk
import Winnow.Proofs.Session.Stems
import Winnow.Proofs.Text.Fields
import Winnow.Proofs.Acronym
import Winnow.Proofs.Settings
import Winnow.Proofs.Settings.Filters
import Winnow.Proofs.Table.StartBytes
import Winnow.Proofs.Table.Registers
