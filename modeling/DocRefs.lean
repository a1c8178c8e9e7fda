import DocRefs.Debouncer
import DocRefs.Files.Store
import DocRefs.Input.Records
import DocRefs.Main
import DocRefs.Service
import DocRefs.Session
import DocRefs.Tools
import DocRefs.Watcher
import DocRefs.Workspace
import DocRefs.Proofs.Text.Runs
import DocRefs.Proofs.Text.Fields
import DocRefs.Proofs.Text.Lines
import DocRefs.Proofs.Text.LineEnds
import DocRefs.Proofs.Attempts
import DocRefs.Proofs.Assoc
import DocRefs.Proofs.Reference.Reading
import DocRefs.Proofs.Reference.Occurrences
import DocRefs.Proofs.Reference.LineEnds
import DocRefs.Proofs.Range.Segments
import DocRefs.Proofs.Reference.Ranges
import DocRefs.Proofs.Workspace.Requests
import DocRefs.Proofs.Path.Normal
import DocRefs.Proofs.Path.Names
import DocRefs.Proofs.Path.FilePath
import DocRefs.Proofs.Files.Tree
import DocRefs.Proofs.Files.Disk
import DocRefs.Proofs.Files.Direct
import DocRefs.Proofs.Roots
import DocRefs.Proofs.Listings
import DocRefs.Proofs.Workspace.Coherence
import DocRefs.Proofs.Diagnostic
import DocRefs.Proofs.Debouncer
import DocRefs.Proofs.Collect
import DocRefs.Proofs.Workspace.Lint
import DocRefs.Proofs.Session.Relint
import DocRefs.Proofs.Session.Convergence
import DocRefs.Proofs.Completion.OpenPath
import DocRefs.Proofs.Completion.Cursor
import DocRefs.Proofs.Debouncer.Journal
import DocRefs.Proofs.Number.Binary64
import DocRefs.Proofs.Debouncer.Moves
import DocRefs.Proofs.Debouncer.Fate
import DocRefs.Proofs.Debouncer.Order
import DocRefs.Proofs.Files.Altered
import DocRefs.Proofs.Workspace.Recall
import DocRefs.Proofs.Session.Pass
import DocRefs.Proofs.Session.Attended
import DocRefs.Proofs.Workspace.LineEnds
import DocRefs.Proofs.Text.Offsets
import DocRefs.Proofs.Workspace.Places
import DocRefs.Proofs.Path.Joining
import DocRefs.Proofs.Files.Entries
import DocRefs.Proofs.Completion.Reachable
import DocRefs.Proofs.Completion.Usable
import DocRefs.Proofs.Files.Removal
import DocRefs.Proofs.Workspace.Removal
import DocRefs.Proofs.Files.Store
import DocRefs.Proofs.Listings.Interleaving
import DocRefs.Proofs.Watcher
import DocRefs.Proofs.Command.Lint
import DocRefs.Proofs.Roots.Climb
import DocRefs.Proofs.Workspace.Searches
import DocRefs.Proofs.Reference.Labels
import DocRefs.Proofs.Text.Positions
import DocRefs.Proofs.Range.Rendering
import DocRefs.Proofs.Workspace.Columns
import DocRefs.Proofs.Settings
import DocRefs.Proofs.Watcher.Spelling
import DocRefs.Proofs.Command.Settings
import DocRefs.Proofs.Workspace.Unchanged
import DocRefs.Proofs.Workspace.Division
import DocRefs.Proofs.Completion.Directory
import DocRefs.Proofs.Listings.Snapshots
import DocRefs.Proofs.Watcher.Restart
import DocRefs.Proofs.Workspace.Repeat
import DocRefs.Proofs.Session.Repeat
import DocRefs.Proofs.Session.Reports
import DocRefs.Proofs.Files.Shape
