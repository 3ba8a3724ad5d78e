import Nomo.Lib.RingBuffer
import Nomo.Lib.RefCount
import Nomo.Lib.Worklist
import Nomo.Lib.Agrees
import Nomo.Async.State
import Nomo.Async.Select
import Nomo.Async.Channel
import Nomo.Async.Executor
import Nomo.Async.RunRoot
import Nomo.Async.Operation
import Nomo.Async.Waiting
import Nomo.Async.Claims
import Nomo.Async.Wakeups
import Nomo.Async.Room
import Nomo.Ir.Syntax
import Nomo.Ir.Machine
import Nomo.Ir.Interpreter
import Nomo.Ir.Ownership
import Nomo.Ir.Touched
import Nomo.Ir.Exclusive
import Nomo.Mir.Operations
import Nomo.Mir.Cfg
import Nomo.Mir.Optimize
import Nomo.Mir.Evaluate
import Nomo.Mir.Transfer
import Nomo.Mir.Fixpoint
import Nomo.Mir.Branches
import Nomo.Mir.Compiled
import Nomo.Mir.Arrival
import Nomo.Mir.Execute
import Nomo.Mir.Statements
import Nomo.Mir.Soundness
import Nomo.Lib.Checked
import Nomo.Lib.Merkle
import Nomo.Lib.Attempt
import Nomo.SupplyChain.Encoding
import Nomo.SupplyChain.Release
import Nomo.SupplyChain.TreeHead
import Nomo.SupplyChain.Log
import Nomo.SupplyChain.Transparency
import Nomo.SupplyChain.Client
import Nomo.SupplyChain.Revocation
import Nomo.SupplyChain.Signed
import Nomo.Resolver.Archive
import Nomo.Resolver.Registry
import Nomo.Resolver.Binding
import Nomo.Mangling.Names
import Nomo.Mangling.Reading
import Nomo.Mangling.Declarations
import Nomo.Mangling.Injectivity
import Nomo.Lib.IntFormat
import Nomo.Lib.CInteger
import Nomo.Arith.Syntax
import Nomo.Arith.Native
import Nomo.Arith.Reference
import Nomo.Arith.Helpers
import Nomo.Arith.NativeMeaning
import Nomo.Arith.Wasm
import Nomo.Arith.WasmMeaning
import Nomo.Arith.Agreement
import Nomo.Lib.Triple
import Nomo.Deps.Version
import Nomo.Deps.Manifest
import Nomo.Deps.Solver
import Nomo.Deps.Resolution
import Nomo.Deps.Fixpoint
import Nomo.Lib.DirectedGraph
import Nomo.Deps.Lockfile
import Nomo.Deps.RoundTrip
import Nomo.Deps.LockCheck
import Nomo.Resolver.Lines
import Nomo.Packing.Sources
import Nomo.Packing.Unpacking
import Nomo.Packing.RoundTrip
import Nomo.Deps.LockedBuild
import Nomo.Deps.LockedBytes
import Nomo.Deps.CurrentBuild
import Nomo.Deps.TrustCoverage
import Nomo.Lib.Words
import Nomo.Cron.Calendar
import Nomo.Cron.Native
import Nomo.Cron.Wasm
import Nomo.Cron.Agreement
import Nomo.Lib.Index
import Nomo.Incremental.Cache
import Nomo.Incremental.Invalidation
import Nomo.Incremental.Interleaving
import Nomo.Incremental.Freshness
import Nomo.Lib.Framing
import Nomo.JsonRpc.Decoder
import Nomo.JsonRpc.Chunks
import Nomo.JsonRpc.Messages
import Nomo.JsonRpc.Envelope
import Nomo.Modules.Loading
import Nomo.Modules.Ownership
import Nomo.Lib.Scanning
import Nomo.Json.Text
import Nomo.Json.Wasm
import Nomo.Json.Native
import Nomo.Json.Progress
import Nomo.Json.Agreement
import Nomo.Lib.Trace
import Nomo.Interpreter.Syntax
import Nomo.Interpreter.Machine
import Nomo.Interpreter.Evaluate
import Nomo.Interpreter.Levels
import Nomo.Interpreter.Limits
import Nomo.Arrays.Refinement
import Nomo.Combinators.Balance
import Nomo.Membership.Agreement
import Nomo.Membership.Wildcard
import Nomo.CheckCache.Cached
import Nomo.Arith.NumHelpers
import Nomo.Arith.NumParse
import Nomo.Ir.Divergence
import Nomo.Streams.AcceptExact
import Nomo.Streams.SseChunking
import Nomo.Workers.Protocol
import Nomo.Blocking.Protocol
import Nomo.Processes.Exact
import Nomo.Streams.Text
import Nomo.Ir.Modes
import Nomo.Mir.Modes
import Nomo.Mir.Numbering
import Nomo.Collections.Map
import Nomo.Lib.Moves
import Nomo.Paths.Normalize
import Nomo.Paths.Logical
import Nomo.Migration.AllOrNothing
import Nomo.Graph.TopologicalSort
import Nomo.Packing.Containment
import Nomo.Deps.Termination
import Nomo.Deps.Workspace
import Nomo.Syntax.TypeBalance
import Nomo.Fmt.Items
import Nomo.Syntax.Locality
