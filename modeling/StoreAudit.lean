import StoreAudit.Digest.Parse
import StoreAudit.Main
import StoreAudit.Proofs.Attributes
import StoreAudit.Proofs.Check.Account
import StoreAudit.Proofs.Check.Again
import StoreAudit.Proofs.Check.Cancellation
import StoreAudit.Proofs.Check.Confinement
import StoreAudit.Proofs.Check.Course
import StoreAudit.Proofs.Check.Decision
import StoreAudit.Proofs.Check.Frame
import StoreAudit.Proofs.Check.Guard
import StoreAudit.Proofs.Check.InOrder
import StoreAudit.Proofs.Check.Judgement
import StoreAudit.Proofs.Check.Moves
import StoreAudit.Proofs.Check.Output
import StoreAudit.Proofs.Check.Progress
import StoreAudit.Proofs.Check.Reaping
import StoreAudit.Proofs.Check.Schedule
import StoreAudit.Proofs.Check.Together
import StoreAudit.Proofs.Check.Visits
import StoreAudit.Proofs.Check.Workers
import StoreAudit.Proofs.Command.Settings
import StoreAudit.Proofs.Digest.Stream
import StoreAudit.Proofs.Digest.Text
import StoreAudit.Proofs.DirectoryCrossing
import StoreAudit.Proofs.FileTree.Change
import StoreAudit.Proofs.FileTree.Directories
import StoreAudit.Proofs.FileTree.Ways
import StoreAudit.Proofs.Git.Answers
import StoreAudit.Proofs.Git.Cursor
import StoreAudit.Proofs.Git.Dialogue
import StoreAudit.Proofs.Git.Endings
import StoreAudit.Proofs.Git.Query
import StoreAudit.Proofs.Git.Reader
import StoreAudit.Proofs.Git.Scanning
import StoreAudit.Proofs.Glob
import StoreAudit.Proofs.PathFilter
import StoreAudit.Proofs.Pointer.Grammar
import StoreAudit.Proofs.Pointer.RoundTrip
import StoreAudit.Proofs.Scan.AttributeScope
import StoreAudit.Proofs.Scan.Blobs
import StoreAudit.Proofs.Scan.Concord
import StoreAudit.Proofs.Scan.Delivery
import StoreAudit.Proofs.Scan.Feed
import StoreAudit.Proofs.Scan.Guards
import StoreAudit.Proofs.Scan.History
import StoreAudit.Proofs.Scan.Range
import StoreAudit.Proofs.Scan.Sightings
import StoreAudit.Proofs.Scan.Staged
import StoreAudit.Proofs.Scan.Steps
import StoreAudit.Proofs.Scan.TreeListing
import StoreAudit.Proofs.Scan.Trees
import StoreAudit.Proofs.Session.Agreement
import StoreAudit.Proofs.Session.FailedOpening
import StoreAudit.Proofs.Session.Journal
import StoreAudit.Proofs.Session.Quiet
import StoreAudit.Proofs.Session.Records
import StoreAudit.Proofs.Session.Reporting
import StoreAudit.Proofs.Session.Scanning
import StoreAudit.Proofs.Session.Step
import StoreAudit.Proofs.Store.Aftermath
import StoreAudit.Proofs.Store.Exclusion
import StoreAudit.Proofs.Store.Paths
import StoreAudit.Proofs.Store.Repair
import StoreAudit.Proofs.Store.RepairOrder
import StoreAudit.Proofs.Store.Ways
import StoreAudit.Proofs.Text.Decimal
import StoreAudit.Proofs.Text.Join
import StoreAudit.Proofs.Text.Lines
import StoreAudit.Proofs.Text.Split
import StoreAudit.Proofs.Text.Word
