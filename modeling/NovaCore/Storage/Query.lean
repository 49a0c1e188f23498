import NovaCore.Storage.World

/-!
# The query engine

A query runs in a fresh session in which tables have been registered under their names, each with a
provider that scans the files of a list of micro-partitions.  `QueryEngine` is the engine as a
function of what it can see: the text of the query and the registered tables, in the order in which
they were registered (a name that is registered twice keeps its first table, which is for the engine
to observe).  The batches of the answer are those of the engine, in any division.
-/

namespace NovaCore

/-- A registered table: its metadata, and the batches of its micro-partitions unless one of the
files is missing. -/
structure SourceTable where
  table : TableMeta
  batches : Option (List RecordBatch)
  deriving DecidableEq

/-- The answer of the engine to a query over the registered tables: batches, or the text of an
error. -/
abbrev QueryEngine := String → List SourceTable → Except String (List RecordBatch)

/-- What registering a table with its micro-partitions lets a query see. -/
def World.sourceTable (w : World) (r : TableMeta × List MicroPartitionMeta) : SourceTable where
  table := r.1
  batches := (r.2.mapM fun mp => w.files mp.readPath).map List.flatten

end NovaCore
