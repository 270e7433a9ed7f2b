import DatabaseEngine.Library.Acyclic
import DatabaseEngine.Library.Bytes
import DatabaseEngine.Library.Calendar
import DatabaseEngine.Library.Channel
import DatabaseEngine.Library.Framing
import DatabaseEngine.Library.Grouping
import DatabaseEngine.Library.Paged
import DatabaseEngine.Library.Action
import DatabaseEngine.Library.Outcome
import DatabaseEngine.Library.Probing
import DatabaseEngine.Library.Firsts
import DatabaseEngine.Library.Results
import DatabaseEngine.Library.Run
import DatabaseEngine.Library.RwLock
import DatabaseEngine.Library.SearchTree
import DatabaseEngine.Library.Selecting
import DatabaseEngine.Library.Slots
import DatabaseEngine.Library.Storage
import DatabaseEngine.Model.Arena
import DatabaseEngine.Model.File
import DatabaseEngine.Model.Pool
import DatabaseEngine.Model.Readers
import DatabaseEngine.Model.Value
import DatabaseEngine.Model.Expr
import DatabaseEngine.Model.Condition
import DatabaseEngine.Model.Heap
import DatabaseEngine.Model.Index
import DatabaseEngine.Model.Catalog
import DatabaseEngine.Model.Lexer
import DatabaseEngine.Model.Semantic
import DatabaseEngine.Model.Executor
import DatabaseEngine.Model.Codec
import DatabaseEngine.Model.Label
import DatabaseEngine.Model.Machine
import DatabaseEngine.Model.Select
import DatabaseEngine.Model.Query
import DatabaseEngine.Model.Join
import DatabaseEngine.Model.Parser
import DatabaseEngine.Model.Answer
import DatabaseEngine.Model.Session
import DatabaseEngine.Model.Directory
import DatabaseEngine.Model.Failure
import DatabaseEngine.Model.Log
import DatabaseEngine.Model.Recovery
import DatabaseEngine.Model.Scan
import DatabaseEngine.Model.Server
import DatabaseEngine.Model.Connections
import DatabaseEngine.Model.Wire
import DatabaseEngine.Model.Frames
import DatabaseEngine.Model.Messages
import DatabaseEngine.Model.Process
import DatabaseEngine.Spec.Arena
import DatabaseEngine.Spec.Arithmetic
import DatabaseEngine.Spec.Catalog
import DatabaseEngine.Spec.Describe
import DatabaseEngine.Spec.Frames
import DatabaseEngine.Spec.Like
import DatabaseEngine.Spec.Messages
import DatabaseEngine.Spec.Printing
import DatabaseEngine.Spec.Numbers
import DatabaseEngine.Spec.Query
import DatabaseEngine.Spec.Recovery
import DatabaseEngine.Spec.References
import DatabaseEngine.Spec.Statements
import DatabaseEngine.Spec.Tree
import DatabaseEngine.Spec.Typing
import DatabaseEngine.Spec.Aggregate
import DatabaseEngine.Spec.Join
import DatabaseEngine.Spec.Classes
import DatabaseEngine.Spec.Loaded
import DatabaseEngine.Spec.Membership
import DatabaseEngine.Spec.Soundness
import DatabaseEngine.Proofs.Pool.Quiet
import DatabaseEngine.Proofs.Pool.Refinement
import DatabaseEngine.Spec.Scan
import DatabaseEngine.Proofs.Pool.Client
import DatabaseEngine.Proofs.Pool.Clean
import DatabaseEngine.Proofs.Pool.Plain
import DatabaseEngine.Spec.Heap
import DatabaseEngine.Proofs.Pool.Runs
import DatabaseEngine.Proofs.Pool.Readers
import DatabaseEngine.Proofs.Pool.Twin
import DatabaseEngine.Proofs.Pool.WriteBack
import DatabaseEngine.Proofs.Pool.Unlogged
import DatabaseEngine.Proofs.Codec.Chain
import DatabaseEngine.Proofs.Codec.Intact
import DatabaseEngine.Proofs.Codec.Offline
import DatabaseEngine.Proofs.Codec.RoundTrip
import DatabaseEngine.Proofs.Codec.Scratch
import DatabaseEngine.Proofs.Session.Reload
import DatabaseEngine.Proofs.Session.Backed
import DatabaseEngine.Proofs.Session.Transaction
import DatabaseEngine.Proofs.Session.Labels
import DatabaseEngine.Proofs.Session.Naming
import DatabaseEngine.Proofs.Session.Rollback
import DatabaseEngine.Proofs.Session.Binding
import DatabaseEngine.Proofs.Session.Opening
import DatabaseEngine.Proofs.Session.Save
import DatabaseEngine.Proofs.Session.Crash
import DatabaseEngine.Proofs.Session.Failure
import DatabaseEngine.Proofs.Session.Durability
import DatabaseEngine.Proofs.Session.Directory
import DatabaseEngine.Proofs.Session.Reopening
import DatabaseEngine.Proofs.Log.Durable
import DatabaseEngine.Proofs.Log.Recovery
import DatabaseEngine.Proofs.Heap.Arena
import DatabaseEngine.Proofs.Heap.Records
import DatabaseEngine.Proofs.Heap.Slotted
import DatabaseEngine.Proofs.Heap.Keeping
import DatabaseEngine.Proofs.Heap.Scans
import DatabaseEngine.Proofs.Parser.Trees
import DatabaseEngine.Proofs.Parser.Conditions
import DatabaseEngine.Proofs.Parser.Expressions
import DatabaseEngine.Proofs.Parser.Selects
import DatabaseEngine.Proofs.Semantic.Alike
import DatabaseEngine.Proofs.Semantic.Dates
import DatabaseEngine.Proofs.Semantic.Operands
import DatabaseEngine.Proofs.Codec.Loaded
import DatabaseEngine.Proofs.Parser.Spans
import DatabaseEngine.Proofs.Semantic.Agreement
import DatabaseEngine.Proofs.Parser.Written
import DatabaseEngine.Proofs.Semantic.Arithmetic
import DatabaseEngine.Proofs.Semantic.Sides
import DatabaseEngine.Proofs.Semantic.Soundness
import DatabaseEngine.Proofs.Select.Keys
import DatabaseEngine.Proofs.Select.Like
import DatabaseEngine.Proofs.Select.Order
import DatabaseEngine.Proofs.Index.Keys
import DatabaseEngine.Proofs.Index.Nodes
import DatabaseEngine.Proofs.Index.Trees
import DatabaseEngine.Proofs.Index.Growing
import DatabaseEngine.Proofs.Index.Scanning
import DatabaseEngine.Proofs.Index.Building
import DatabaseEngine.Proofs.Select.Accumulate
import DatabaseEngine.Proofs.Select.Reading
import DatabaseEngine.Proofs.Semantic.References
import DatabaseEngine.Proofs.Select.Grouping
import DatabaseEngine.Proofs.Select.Folds
import DatabaseEngine.Proofs.Select.Sorting
import DatabaseEngine.Proofs.Join.Columns
import DatabaseEngine.Proofs.Heap.Decoding
import DatabaseEngine.Proofs.Join.Nested
import DatabaseEngine.Proofs.Join.Outer
import DatabaseEngine.Proofs.Join.Hashed
import DatabaseEngine.Proofs.Select.Classes
import DatabaseEngine.Proofs.Join.Stored
import DatabaseEngine.Proofs.Join.Typed
import DatabaseEngine.Proofs.Select.Announced
import DatabaseEngine.Proofs.Wire.Effects
import DatabaseEngine.Proofs.Wire.Discipline
import DatabaseEngine.Proofs.Wire.Keywords
import DatabaseEngine.Proofs.Wire.Lexing
import DatabaseEngine.Proofs.Wire.Rows
import DatabaseEngine.Proofs.Wire.Scan
import DatabaseEngine.Proofs.Wire.Extended
import DatabaseEngine.Proofs.Wire.Describe
import DatabaseEngine.Proofs.Semantic.Membership
import DatabaseEngine.Proofs.Wire.Spelling
import DatabaseEngine.Proofs.Parser.Printing
import DatabaseEngine.Proofs.Parser.Numbers
import DatabaseEngine.Proofs.Wire.Splitting
import DatabaseEngine.Proofs.Wire.Substitution
import DatabaseEngine.Proofs.Wire.Portal
import DatabaseEngine.Proofs.Wire.Prepared
import DatabaseEngine.Proofs.Wire.Suspended
import DatabaseEngine.Proofs.Server.Ownership
import DatabaseEngine.Proofs.Index.Paths
