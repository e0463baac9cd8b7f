import BuildDigest.Framework.Moniker
import BuildDigest.Main
import BuildDigest.Proofs.CommandLine.Image
import BuildDigest.Proofs.Tree.Arena
import BuildDigest.Proofs.Tree.Linked
import BuildDigest.Proofs.Tree.Preorder
import BuildDigest.Proofs.Tree.Walked
import BuildDigest.Proofs.Folders.Filing
import BuildDigest.Proofs.Folders.Puts
import BuildDigest.Proofs.Folders.Holding
import BuildDigest.Proofs.Folders.Lookup
import BuildDigest.Proofs.Folders.Shelf
import BuildDigest.Proofs.Folders.Reported
import BuildDigest.Proofs.Assembly.Entries
import BuildDigest.Proofs.Assembly.Reading
import BuildDigest.Proofs.Assembly.Snapshots
import BuildDigest.Proofs.Ledger.Report
import BuildDigest.Proofs.Processor.Digest
import BuildDigest.Proofs.Ledger.Blocks
import BuildDigest.Proofs.Ledger.Insertion
import BuildDigest.Proofs.Ledger.Orphans
import BuildDigest.Proofs.Processor.Nesting
import BuildDigest.Proofs.Event.Written
import BuildDigest.Proofs.Assembly.Texts
import BuildDigest.Proofs.Snapshot.Plain
import BuildDigest.Proofs.Service.Findings
import BuildDigest.Proofs.Service.History
import BuildDigest.Proofs.Assembly.Branches
import BuildDigest.Proofs.Forest.Basic
import BuildDigest.Proofs.Forest.Growth
import BuildDigest.Proofs.Forest.Parse
import BuildDigest.Proofs.Service.Agreement
import BuildDigest.Proofs.Processor.Growth
import BuildDigest.Proofs.Processor.WellBuilt
import BuildDigest.Proofs.Processor.Interleaving
import BuildDigest.Proofs.Event.Refusal
import BuildDigest.Proofs.Json.Limits
import BuildDigest.Proofs.Text.Chunks
import BuildDigest.Proofs.EventLog.Faults
import BuildDigest.Proofs.Processor.Accepted
import BuildDigest.Proofs.Processor.Observing
import BuildDigest.Proofs.CommandLine.Rendered
import BuildDigest.Proofs.CommandLine.Strokes
import BuildDigest.Proofs.Text.Pattern
import BuildDigest.Proofs.Framework.Moniker
import BuildDigest.Proofs.Path.Place
import BuildDigest.Proofs.Path.Normal
import BuildDigest.Proofs.Path.Resolved
import BuildDigest.Proofs.Snapshot.Invocation
import BuildDigest.Proofs.Path.FileName
import BuildDigest.Proofs.Snapshot.Sources
import BuildDigest.Proofs.Ordered
import BuildDigest.Proofs.NameMap
import BuildDigest.Proofs.Framework.ShortName
import BuildDigest.Proofs.Timestamp.Zulu
import BuildDigest.Proofs.Processor.Attribution
