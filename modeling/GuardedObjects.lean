import GuardedObjects.Text.Identifier
import GuardedObjects.Text.Blank
import GuardedObjects.Table
import GuardedObjects.Binary64
import GuardedObjects.Ty.Basic
import GuardedObjects.Ty.Printer
import GuardedObjects.Annotation.Token
import GuardedObjects.Annotation.Error
import GuardedObjects.Annotation.Parser
import GuardedObjects.Value.Basic
import GuardedObjects.Value.Typing
import GuardedObjects.Value.Conversion
import GuardedObjects.Member.Visibility
import GuardedObjects.Member.Markers
import GuardedObjects.Friend
import GuardedObjects.Outside
import GuardedObjects.Fault
import GuardedObjects.Call.Arguments
import GuardedObjects.Call.Frame
import GuardedObjects.Call.Action
import GuardedObjects.Call.Callable
import GuardedObjects.Call.Binding
import GuardedObjects.Class.Basic
import GuardedObjects.Class.Linearization
import GuardedObjects.Declaration.Error
import GuardedObjects.Declaration.Basic
import GuardedObjects.Declaration.Resolution
import GuardedObjects.Review
import GuardedObjects.Config
import GuardedObjects.Registry
import GuardedObjects.Program.Basic
import GuardedObjects.Access
import GuardedObjects.World
import GuardedObjects.Program.Mediation
import GuardedObjects.Program.Run
import GuardedObjects.Script.Expr
import GuardedObjects.Script.Eval
import GuardedObjects.Class.Report
import GuardedObjects.Lint
import GuardedObjects.Session
import GuardedObjects.Toml.Reader
import GuardedObjects.Toml.Scalar
import GuardedObjects.Toml.Quoted
import GuardedObjects.Toml.Item
import GuardedObjects.Toml.Document
import GuardedObjects.Config.Settings
import GuardedObjects.Proofs.Run.Basic
import GuardedObjects.Proofs.Run.Execution
import GuardedObjects.Proofs.Except
import GuardedObjects.Proofs.Mediation
import GuardedObjects.Proofs.Registry.Linked
import GuardedObjects.Proofs.Heap.Sound
import GuardedObjects.Proofs.Run.Activation
import GuardedObjects.Proofs.Heap.Const
import GuardedObjects.Proofs.Call.Binding
import GuardedObjects.Proofs.Call.Boundary
import GuardedObjects.Proofs.Access.Privacy
import GuardedObjects.Proofs.Registry.Declarations
import GuardedObjects.Proofs.Class.Linearization
import GuardedObjects.Proofs.Class.Growth
import GuardedObjects.Proofs.Class.Hierarchy
import GuardedObjects.Proofs.Registry.Submission
import GuardedObjects.Proofs.Class.Befriending
import GuardedObjects.Proofs.Registry.Friends
import GuardedObjects.Proofs.Registry.Overriding
import GuardedObjects.Proofs.Access.Inheritance
import GuardedObjects.Proofs.Run.Trace
import GuardedObjects.Proofs.Run.Receiver
import GuardedObjects.Proofs.Heap.Cache
import GuardedObjects.Proofs.Registry.Pruning
import GuardedObjects.Proofs.Access.Inertness
import GuardedObjects.Proofs.Access.Lexical
import GuardedObjects.Proofs.Access.ReadBack
import GuardedObjects.Proofs.Run.Transparency
import GuardedObjects.Proofs.Heap.Memo
import GuardedObjects.Proofs.Annotation.Grammar
import GuardedObjects.Proofs.Annotation.Parsing
import GuardedObjects.Proofs.Annotation.Lexing
import GuardedObjects.Proofs.Annotation.Layout
import GuardedObjects.Proofs.Annotation.LongestMatch
import GuardedObjects.Proofs.Annotation.Outcome
import GuardedObjects.Proofs.Annotation.Spacing
import GuardedObjects.Proofs.Annotation.Position
import GuardedObjects.Proofs.Ty.Splicing
import GuardedObjects.Proofs.Ty.Reshaping
import GuardedObjects.Proofs.Value.Equality
import GuardedObjects.Proofs.Annotation.RoundTrip
import GuardedObjects.Proofs.Run.Kinds
import GuardedObjects.Proofs.Table
import GuardedObjects.Proofs.Listing
import GuardedObjects.Proofs.Registry.Linearized
import GuardedObjects.Proofs.Registry.Implementation
import GuardedObjects.Proofs.Registry.Linking
import GuardedObjects.Proofs.Registry.Entries
import GuardedObjects.Proofs.Registry.Reordering
import GuardedObjects.Proofs.Registry.Mentions
import GuardedObjects.Proofs.Registry.Marking
import GuardedObjects.Proofs.Run.SuperCalls
import GuardedObjects.Proofs.Call.Outcome
import GuardedObjects.Proofs.Call.Placement
import GuardedObjects.Proofs.Call.Passing
