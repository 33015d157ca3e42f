import TaoPQ.Lib.Exec
import TaoPQ.Lib.Savepoints
import TaoPQ.Lib.LinkedStack
import TaoPQ.Server
import TaoPQ.Libpq
import TaoPQ.Connection
import TaoPQ.Transaction
import TaoPQ.Bulk
import TaoPQ.Program
import TaoPQ.Heap
import TaoPQ.Answers
import TaoPQ.Blocks
import TaoPQ.Ordering
import TaoPQ.ArrayParameters
import TaoPQ.ArrayResults
import TaoPQ.Commit
import TaoPQ.Lib.Nested
import TaoPQ.Nesting
import TaoPQ.PgCopy
import TaoPQ.Simulation
import TaoPQ.TableReader
import TaoPQ.TableWriter
import TaoPQ.Draining
import TaoPQ.TableRows
import TaoPQ.PoolStories
import TaoPQ.ConnectionPool
import TaoPQ.Parameter
import TaoPQ.Rows
import TaoPQ.PipelineMode
import TaoPQ.PipelineResults
import TaoPQ.PreparedStatements
import TaoPQ.BulkLoad
import TaoPQ.Subtransactions
import TaoPQ.Fields
import TaoPQ.Slices
import TaoPQ.ArraySafety
import TaoPQ.RowSafety
import TaoPQ.Bytea
import TaoPQ.Deadlines
import TaoPQ.Sizes
import TaoPQ.Endings
import TaoPQ.Floats
import TaoPQ.Sqlstate
import TaoPQ.Notifications
import TaoPQ.ArrayColumns
import TaoPQ.Batches
import TaoPQ.Tables
import TaoPQ.Portions
import TaoPQ.Progress
