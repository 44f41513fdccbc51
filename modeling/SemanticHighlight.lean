import SemanticHighlight.Command.Run
import SemanticHighlight.Main
import SemanticHighlight.Proofs.Host.Display
import SemanticHighlight.Proofs.Session.Run
import SemanticHighlight.Session.Report
import SemanticHighlight.Tokenizer.Worker
import SemanticHighlight.Proofs.Session.HostView
import SemanticHighlight.Proofs.Session.Calls
import SemanticHighlight.Proofs.Session.Namespaces
import SemanticHighlight.Proofs.Frame.Length
import SemanticHighlight.Proofs.Frame.Reader
import SemanticHighlight.Proofs.Worker.Process
import SemanticHighlight.Proofs.Worker.Slot
import SemanticHighlight.Proofs.Worker.Pool
import SemanticHighlight.Proofs.Worker.Replies
import SemanticHighlight.Proofs.Worker.Buffers
import SemanticHighlight.Proofs.Session.Workers
import SemanticHighlight.Proofs.Frame.Stream
import SemanticHighlight.Proofs.Session.Failures
import SemanticHighlight.Proofs.Worker.Phases
import SemanticHighlight.Proofs.Session.Lifecycle
import SemanticHighlight.Proofs.Highlight.Renaming
import SemanticHighlight.Proofs.Session.Isolation
import SemanticHighlight.Proofs.Frame.Split
import SemanticHighlight.Proofs.Worker.Permits
import SemanticHighlight.Proofs.Worker.Custody
import SemanticHighlight.Proofs.Session.Admission
import SemanticHighlight.Proofs.Worker.Backoff
import SemanticHighlight.Proofs.Json.Spelling
import SemanticHighlight.Proofs.Json.RoundTrip
import SemanticHighlight.Proofs.Host.Lines
import SemanticHighlight.Proofs.Settings.RoundTrip
import SemanticHighlight.Proofs.Record.Rows
import SemanticHighlight.Proofs.Highlight.Convergence
import SemanticHighlight.Proofs.Session.Concurrent
import SemanticHighlight.Proofs.Session.Turns
import SemanticHighlight.Proofs.Session.Interleaving
import SemanticHighlight.Proofs.Session.Alone
import SemanticHighlight.Proofs.Text.Utf8
import SemanticHighlight.Proofs.Tokenizer.Turn
import SemanticHighlight.Proofs.Tokenizer.Serving
import SemanticHighlight.Proofs.Record.Fields
import SemanticHighlight.Proofs.Tokenizer.Exchange
import SemanticHighlight.Proofs.Session.Quitting
import SemanticHighlight.Proofs.Command.Output
import SemanticHighlight.Proofs.Highlight.Selection
import SemanticHighlight.Proofs.Record.Reading
import SemanticHighlight.Proofs.Highlight.Chase
import SemanticHighlight.Proofs.Record.RoundTrip
import SemanticHighlight.Proofs.Highlight.TokenStream
import SemanticHighlight.Proofs.Frame.Chunks
import SemanticHighlight.Proofs.Tokenizer.Ending
import SemanticHighlight.Proofs.Tokenizer.Records
import SemanticHighlight.Proofs.Tokenizer.Locality
import SemanticHighlight.Proofs.Highlight.Growth
import SemanticHighlight.Proofs.Host.Room
import SemanticHighlight.Frame.Deadline
import SemanticHighlight.Proofs.Frame.Deadline
import SemanticHighlight.Proofs.Json.Grammar
import SemanticHighlight.Proofs.Settings.Dictionary
import SemanticHighlight.Proofs.Settings.Records
import SemanticHighlight.Proofs.Settings.Edits
import SemanticHighlight.Proofs.Command.Items
import SemanticHighlight.Proofs.Highlight.Lookup
import SemanticHighlight.Proofs.Worker.Contention
import SemanticHighlight.Proofs.Frame.Field
