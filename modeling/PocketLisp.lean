import PocketLisp.Main
import PocketLisp.Proofs.Eval.Adequacy
import PocketLisp.Proofs.Eval.Confinement
import PocketLisp.Proofs.Eval.Names
import PocketLisp.Proofs.Reader.Continuation
import PocketLisp.Proofs.Reader.Grammar
import PocketLisp.Proofs.Reader.RoundTrip
import PocketLisp.Proofs.Session.Legal
import PocketLisp.Proofs.Session.ScopeTree
import PocketLisp.Sessions
import PocketLisp.Store.Named
import PocketLisp.Store.Printer
import PocketLisp.Proofs.Eval.Simulation
import PocketLisp.Proofs.Session.ExtraDefinition
import PocketLisp.Proofs.Text.Lines
import PocketLisp.Proofs.Reader.Lines
import PocketLisp.Host
import PocketLisp.Reader.Reach
import PocketLisp.Proofs.Reader.Reach
import PocketLisp.Proofs.Repl.Block
import PocketLisp.Proofs.Repl.Answer
import PocketLisp.Proofs.Repl.Conversation
import PocketLisp.Proofs.Repl.File
import PocketLisp.Proofs.Repl.Refusal
import PocketLisp.Proofs.Session.Message
import PocketLisp.Proofs.CommandLine.FileRun
import PocketLisp.Proofs.CommandLine.OneSession
import PocketLisp.Proofs.Eval.Alike
import PocketLisp.Proofs.Store.Copied
import PocketLisp.Proofs.Eval.Hosting
import PocketLisp.Proofs.Session.Hosting
import PocketLisp.Proofs.Session.Isolation
import PocketLisp.Proofs.Eval.DepthLimit
import PocketLisp.Proofs.CommandLine.DepthLimit
import PocketLisp.Proofs.Reader.Layout
import PocketLisp.Reader.Stream
import PocketLisp.Proofs.Reader.Stream
import PocketLisp.Proofs.Eval.Chronicle
import PocketLisp.Proofs.Eval.Identity
import PocketLisp.Proofs.Store.Sight
import PocketLisp.Proofs.Eval.Copy
import PocketLisp.Proofs.Session.Identity
import PocketLisp.Proofs.Reader.Extent
import PocketLisp.Proofs.Session.Batch
import PocketLisp.Proofs.Value.Equal
import PocketLisp.Proofs.Eval.Recoding
import PocketLisp.Proofs.Eval.Trim
import PocketLisp.Proofs.Eval.Trimming
import PocketLisp.Proofs.Eval.FormFailure
import PocketLisp.Proofs.Eval.Call
import PocketLisp.Proofs.Eval.Redefinition
import PocketLisp.Proofs.Store.Sharing
import PocketLisp.Comparand
import PocketLisp.Proofs.Eval.Sum
import PocketLisp.Proofs.Reader.AtomSpelling
import PocketLisp.Proofs.Value.Comparand
import PocketLisp.Proofs.Eval.Lockstep
import PocketLisp.Proofs.Eval.Course
import PocketLisp.Proofs.Eval.Trace
import PocketLisp.Proofs.Session.Trace
