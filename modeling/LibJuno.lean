import LibJuno.Lib.Machine
import LibJuno.Lib.Bounded
import LibJuno.Status
import LibJuno.Memory.Pointer
import LibJuno.Ds.Array
import LibJuno.Ds.Queue
import LibJuno.Buff.Queue
import LibJuno.Ds.FlatArray
import LibJuno.Ds.Stack
import LibJuno.Buff.Stack
import LibJuno.Sb.Broker
import LibJuno.Sb.FanOut
import LibJuno.Ds.Map
import LibJuno.Ds.MapSet
import LibJuno.Lib.CyclicWalk
import LibJuno.Ds.MapProbe
import LibJuno.Lib.Pieces
import LibJuno.Lib.Pool
import LibJuno.Memory.Block
import LibJuno.Memory.BlockReturn
import LibJuno.Memory.BlockUpdate
import LibJuno.Ds.Heap
import LibJuno.Ds.HeapAtomic
import LibJuno.Ds.Heapify
import LibJuno.Lib.Logged
import LibJuno.Ds.Descriptors
import LibJuno.Indexer.Index
import LibJuno.Indexer.WorkspaceIndexer
import LibJuno.Lib.Rescale
import LibJuno.Time.Duration
import LibJuno.Time.Overflow
import LibJuno.Time.Rounding
import LibJuno.Crc.Tables
import LibJuno.Crc.Update
import LibJuno.Lib.ErrorPatterns
import LibJuno.Crc.Detection
import LibJuno.Lib.Regex
import LibJuno.Lib.RegexRuns
import LibJuno.Lib.RegexSearch
import LibJuno.Indexer.View
import LibJuno.Indexer.Locality
import LibJuno.Indexer.Reindex
import LibJuno.Lib.FirstOfKey
import LibJuno.Lib.Prefixed
import LibJuno.Indexer.Lookup
import LibJuno.Indexer.ScanLists
import LibJuno.Indexer.ScanOrder
import LibJuno.Indexer.Incremental
import LibJuno.Indexer.Overlap
import LibJuno.Lib.Ledger
import LibJuno.Indexer.Removal
import LibJuno.Indexer.CacheManager
import LibJuno.Indexer.CacheRoundTrip
import LibJuno.Indexer.LoadFromCache
import LibJuno.Indexer.Changes
import LibJuno.Indexer.Stamps
import LibJuno.Indexer.CacheStart
import LibJuno.Lib.Scanner
import LibJuno.Parser.Lexer
import LibJuno.Parser.Directives
import LibJuno.Parser.Cst
import LibJuno.Parser.Initializers
import LibJuno.Lib.Rank
import LibJuno.Parser.Positional
import LibJuno.Parser.Statements
import LibJuno.Parser.TranslationUnit
import LibJuno.Parser.PositionalLists
import LibJuno.Parser.Locals
import LibJuno.Lib.Loop
import LibJuno.Lib.Ancestry
import LibJuno.Parser.MacroTokens
import LibJuno.Resolver.VtableResolver
import LibJuno.Resolver.FrontEnds
import LibJuno.Resolver.Derivations
import LibJuno.Resolver.FailureHandlers
import LibJuno.Resolver.MacroArgument
import LibJuno.Resolver.ArrayChain
import LibJuno.Lib.JsonDict
import LibJuno.Lib.Accumulate
import LibJuno.Traceability.Requirements
import LibJuno.Traceability.FixImplements
import LibJuno.Traceability.Verify
import LibJuno.Sm.StateMachine
import LibJuno.Sm.TrafficLight
import LibJuno.Lib.Backlog
import LibJuno.Udp.Message
import LibJuno.Udp.Apps
import LibJuno.Udp.SenderThread
import LibJuno.Udp.System
import LibJuno.Lib.RegexOne
import LibJuno.Parser.Tiling
import LibJuno.Lib.Escaping
import LibJuno.Lib.Markup
import LibJuno.Providers.VtableTraceProvider
import LibJuno.Providers.TracePage
import LibJuno.Indexer.Session
import LibJuno.Resolver.Linking
import LibJuno.Lib.Parallel
import LibJuno.Mcp.McpServer
import LibJuno.Lib.Horner
import LibJuno.Hash.Djb2
import LibJuno.Providers.StatusBar
import LibJuno.Indexer.ScanFiles
