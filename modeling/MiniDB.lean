import MiniDB.Lib.Bytes
import MiniDB.Lib.Paged
import MiniDB.Utilities.Status
import MiniDB.Storage.Page
import MiniDB.Buffer.Store
import MiniDB.Storage.SlottedPage
import MiniDB.Storage.Equiv.SlottedPage
import MiniDB.Storage.HeapFile
import MiniDB.Storage.Equiv.HeapFile
import MiniDB.Lib.Run
import MiniDB.Storage.Equiv.HeapSystem
import MiniDB.Index.BPlusNode
import MiniDB.Index.Equiv.BPlusNode
import MiniDB.Index.BPlusTree
import MiniDB.Lib.BTree
import MiniDB.Index.Equiv.BPlusScan
import MiniDB.Index.Equiv.BPlusTree
import MiniDB.Index.Equiv.BPlusOps
import MiniDB.Index.Equiv.TreeSystem
import MiniDB.Index.Equiv.TreeSearch
import MiniDB.Lib.Double
import MiniDB.Common.Value
import MiniDB.Lib.UnorderedMap
import MiniDB.Storage.Record
import MiniDB.Storage.Equiv.Record
import MiniDB.Catalog.CatalogManager
import MiniDB.Database
import MiniDB.Storage.TableManager
import MiniDB.Storage.Equiv.UpdateRow
import MiniDB.Executor.ExprEval
import MiniDB.Index.IndexPool
import MiniDB.Lib.Cursor
import MiniDB.Executor.Operator
import MiniDB.Executor.Executor
import MiniDB.Index.Equiv.IndexPool
import MiniDB.Lib.Listing
import MiniDB.Storage.Equiv.Tables
import MiniDB.Catalog.Equiv.CatalogManager
import MiniDB.Executor.Equiv.ExprEval
import MiniDB.Executor.Equiv.Rows
import MiniDB.Executor.Equiv.Definitions
import MiniDB.Executor.Equiv.Mirror
import MiniDB.Executor.Equiv.Relational
import MiniDB.Executor.Equiv.Operator
import MiniDB.Executor.Equiv.Plan
import MiniDB.Executor.Equiv.Freshness
import MiniDB.Transaction.Mvcc
import MiniDB.Transaction.Equiv.TransactionManager
import MiniDB.Lib.Versions
import MiniDB.Transaction.Equiv.Mvcc
import MiniDB.Transaction.Equiv.FirstUpdater
import MiniDB.Transaction.LockManager
import MiniDB.Lib.Framing
import MiniDB.Recovery.Equiv.WalManager
import MiniDB.Transaction.Equiv.LockManager
import MiniDB.Lib.Writes
import MiniDB.Recovery.RecoveryManager
import MiniDB.Recovery.Equiv.RecoveryManager
import MiniDB.Executor.Equiv.StoredRows
import MiniDB.Executor.Equiv.Atomicity
import MiniDB.Parser.Token
import MiniDB.Parser.Tokenizer
import MiniDB.Lib.Grammar
import MiniDB.Parser.Equiv.Tokenizer
import MiniDB.Parser.Parser
import MiniDB.Parser.SqlGrammar
import MiniDB.Parser.Equiv.Parser
import MiniDB.Network.Protocol
import MiniDB.Executor.Equiv.Typing
import MiniDB.Network.Equiv.Protocol
import MiniDB.Executor.Equiv.Comparison
import MiniDB.Executor.Equiv.Sorting
import MiniDB.Executor.Equiv.Aggregates
import MiniDB.Executor.Equiv.IntegerOrder
import MiniDB.Executor.Equiv.Limit
import MiniDB.Executor.Equiv.Projection
import MiniDB.Executor.Equiv.WhereClause
import MiniDB.Transaction.Equiv.FailedUpdate
import MiniDB.Buffer.BufferPool
import MiniDB.Buffer.Equiv.BufferPool
import MiniDB.Index.Equiv.SplitPoint
import MiniDB.Catalog.Equiv.Metadata
import MiniDB.Lib.ThreeColors
import MiniDB.Transaction.DetectDeadlock
import MiniDB.Transaction.Equiv.DetectDeadlock
import MiniDB.Recovery.Equiv.AnyLog
import MiniDB.Recovery.Equiv.Checkpoint
import MiniDB.Parser.Equiv.Numbers
import MiniDB.Cli.Repl
import MiniDB.Cli.Equiv.Repl
import MiniDB.Executor.Equiv.ResultFormatter
import MiniDB.Network.Equiv.TcpServer
import MiniDB.Network.Equiv.Sessions
import MiniDB.Buffer.Equiv.Transparency
import MiniDB.Buffer.Equiv.Programs
import MiniDB.Buffer.Equiv.Eviction
