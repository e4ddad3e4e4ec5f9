import CrustyDB.Lib.BTree.Chain
import CrustyDB.Lib.BTree.Invariants
import CrustyDB.Lib.BTree.Lookup
import CrustyDB.Lib.BTree.Order
import CrustyDB.Lib.BTree.Shape
import CrustyDB.Lib.BTree.Store
import CrustyDB.Lib.Bag
import CrustyDB.Lib.ByteBuffer
import CrustyDB.Lib.Extents
import CrustyDB.Lib.MergeJoin
import CrustyDB.Lib.Numeral
import CrustyDB.Lib.Program
import CrustyDB.Lib.Pull
import CrustyDB.Lib.Simulation
import CrustyDB.Lib.Socket
import CrustyDB.Lib.Stateful
import CrustyDB.Page.Basic
import CrustyDB.Page.HeapPage
import CrustyDB.Page.HeapPageRefine
import CrustyDB.Page.LiveValues
import CrustyDB.Page.PageContract
import CrustyDB.Page.PagePool
import CrustyDB.Page.PageSpace
import CrustyDB.Page.PageView
import CrustyDB.Page.SlotDirectory
import CrustyDB.Data.Bytecode
import CrustyDB.Data.CsvCompare
import CrustyDB.Data.DecimalText
import CrustyDB.Data.FieldBytes
import CrustyDB.Data.FieldNumbers
import CrustyDB.Data.Schema
import CrustyDB.Data.Value
import CrustyDB.Index.Cbor
import CrustyDB.Index.NodeEntries
import CrustyDB.Index.NodePage
import CrustyDB.Index.ReusedFrames
import CrustyDB.Index.TreeErrors
import CrustyDB.Index.TreeIndex
import CrustyDB.Index.TreeRefine
import CrustyDB.Index.TreeRuns
import CrustyDB.Index.TreeStore
import CrustyDB.Pool.BufferPool
import CrustyDB.Pool.BufferPoolSpec
import CrustyDB.Pool.Flushing
import CrustyDB.Pool.FreeFrames
import CrustyDB.Pool.PageContents
import CrustyDB.Pool.PagePresence
import CrustyDB.Pool.PageTable
import CrustyDB.Pool.PoolAlike
import CrustyDB.Heap.HeapFile
import CrustyDB.Heap.HeapFileErrors
import CrustyDB.Heap.HeapFileMap
import CrustyDB.Heap.HeapFileScan
import CrustyDB.Heap.PageStore
import CrustyDB.Heap.PoolStore
import CrustyDB.Storage.ClearCache
import CrustyDB.Storage.MemStore
import CrustyDB.Storage.MemStoreRuns
import CrustyDB.Storage.StorageManager
import CrustyDB.Storage.StorageReset
import CrustyDB.Query.EquiJoins
import CrustyDB.Query.ExprCompiler
import CrustyDB.Query.OperatorContracts
import CrustyDB.Query.Operators
import CrustyDB.Query.PlanSemantics
import CrustyDB.Query.Plans
import CrustyDB.Query.Pushdown
import CrustyDB.Query.Replay
import CrustyDB.Query.SortMerge
import CrustyDB.Server.Catalog
import CrustyDB.Server.Commands
import CrustyDB.Server.IndexEntries
import CrustyDB.Server.InsertRows
import CrustyDB.Server.RowWriters
import CrustyDB.Server.Statements
import CrustyDB.Server.StoredTypes
import CrustyDB.Server.TableRuns
import CrustyDB.Server.Wire
