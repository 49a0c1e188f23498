import NovaCore.Executor.Follows
import NovaCore.Executor.StreamFollows
import NovaCore.Metadata.Store

/-!
# Concurrent statements

A configuration in which every thread is one INSERT, UPDATE or DELETE over a shared store.  All
threads exist from the start and each takes its first step whenever it likes, so a run of the
configuration is an interleaving of statements that begin and end at arbitrary times.

## Main definitions

* `dmlConfig` : the initial configuration of a family of data-changing statements.
* `sessionConfig` : the same with stream reads among the statements.
* `oneTable` : a store with one empty table, for concrete runs.
-/

namespace NovaCore

section

variable {ι : Type}

/-- The statements `stmts`, all about to start, over the world `w`. -/
def dmlConfig (fmt : TextFormat) (w : World) (stmts : ι → DmlStatement) :
    Config ι Op Op.Res World fun _ => Except NovaError QueryResult where
  world := w
  threads i := ((stmts i).exec fmt).run

variable {fmt : TextFormat} {w : World} {stmts : ι → DmlStatement}

/-- A statement with log `s` may end with this result: it succeeds only by committing and fails
only without having committed. -/
def StmtLog.EndsWith {α : Type} (s : StmtLog) : Except NovaError α → Prop
  | .ok _ => s.commit ≠ none
  | .error _ => s.commit = none

/-- Every statement follows its protocol. -/
theorem dmlConfig_follows (i : ι) :
    ((dmlConfig fmt w stmts).threads i).Follows (dmlProtocol fmt (stmts i))
      StmtLog.EndsWith {} := by
  refine Prog.Follows.mono (exec_follows fmt (stmts i)) fun s q hq => ?_
  cases q with
  | ok a | error e => exact hq

end

/-! ### Statements that also read streams -/

/-- A change of table data or a read of a stream. -/
inductive SessionStatement
  | dml (stmt : DmlStatement)
  | readStream (req : StreamRead)

namespace SessionStatement

/-- The program of a statement. -/
def exec (fmt : TextFormat) : SessionStatement → Nova QueryResult
  | dml stmt => stmt.exec fmt
  | readStream req => execReadStream req

/-- The protocol of a statement. -/
def protocol (fmt : TextFormat) : SessionStatement → Protocol Op Op.Res StmtLog
  | dml stmt => dmlProtocol fmt stmt
  | readStream req => readerProtocol req

/-- A statement with log `s` may end with this result. -/
def EndsWith : SessionStatement → StmtLog → Except NovaError QueryResult → Prop
  | dml _, s, q => s.EndsWith q
  | readStream req, s, .ok _ => s.stream.Completed req
  | readStream _, s, .error _ => s.Unconsumed

end SessionStatement

/-- The statements `stmts`, all about to start, over the world `w`. -/
def sessionConfig {ι : Type} (fmt : TextFormat) (w : World) (stmts : ι → SessionStatement) :
    Config ι Op Op.Res World fun _ => Except NovaError QueryResult where
  world := w
  threads i := ((stmts i).exec fmt).run

theorem sessionConfig_follows {ι : Type} {fmt : TextFormat} {w : World}
    {stmts : ι → SessionStatement} (i : ι) :
    ((sessionConfig fmt w stmts).threads i).Follows ((stmts i).protocol fmt)
      (stmts i).EndsWith {} := by
  change Prog.Follows ((stmts i).protocol fmt) (stmts i).EndsWith ((stmts i).exec fmt).run {}
  cases stmts i with
  | dml stmt =>
    refine Prog.Follows.mono (exec_follows fmt stmt) fun s q hq => ?_
    cases q with
    | ok a | error e => exact hq
  | readStream req =>
    refine Prog.Follows.mono (execReadStream_follows req) fun s q hq => ?_
    cases q with
    | ok a | error e => exact hq

/-! ### A concrete store -/

/-- A formatter for runs that never print a number. -/
def plainText : TextFormat where
  f64Display _ := ""
  exprDebug _ := ""

/-- The table `d.s.t` with one nullable integer column. -/
def sampleTable : TableMeta where
  id := 1
  dbId := 1
  schemaId := 1
  name := "t"
  columns := [⟨"a", .int64, true⟩]

/-- The session of the account administrator. -/
def rootSession : SecurityContext where
  userId := rootUserId
  username := "root"
  primaryRoleId := accountadminRoleId
  secondaryRoleIds := []
  secondaryAll := false

/-- A store that holds only the empty table `sampleTable`. -/
def oneTable : World where
  catalog :=
    { databases := (∅ : OMap DatabaseMeta).insert 1 ⟨1, "d"⟩
      schemas := fun _ => (∅ : OMap SchemaMeta).insert 1 ⟨1, 1, "s"⟩
      tables := fun _ _ => (∅ : OMap TableMeta).insert 1 sampleTable
      streams := fun _ => none
      streamByName := fun _ _ _ => none
      dynamicTables := ∅
      roles := fun r =>
        if r = accountadminRoleId then some ⟨r, "ACCOUNTADMIN", r, rootUserId⟩ else none
      roleChildren := fun _ => ∅
      owners := fun _ => none
      grants := fun _ _ => none }
  mps := fun _ => none
  tableMps := fun _ => ∅
  tableVersion := fun _ => 0
  nextTxn := 0
  txns := fun _ => none
  changeNextSeq := fun _ => none
  changeSeq := fun _ => none
  changeLog := fun _ _ => none
  streamOffsets := fun _ => none
  files := fun _ => none
  payloads := fun _ => none
  issued := []

/-- A batch with one row of `sampleTable`. -/
def rowBatch (n : ℤ) : RecordBatch where
  schema := [⟨"a", .int64, true⟩]
  rows := [[.int64 n true]]
  rows_fit := by simp [rowFits, Field.accepts, Cell.dataType]

/-- The micro-partition of `oneRow`. -/
def sampleMp : MicroPartitionMeta where
  mpId := 7
  tableId := 1
  version := 1
  s3Path := .temp 1 7 1
  s3TempPath := none
  rowCount := 1
  commitTs := 1
  txnId := 1
  supersedes := none
  supersededBy := none
  active := true

/-- `oneTable` after one INSERT of a row. -/
def oneRow : World :=
  { oneTable with
    mps := fun k => if k = 7 then some sampleMp else none
    tableMps := fun t => if t = 1 then (∅ : OMap Unit).insert 7 () else ∅
    nextTxn := 1
    files := fun p => if p = .temp 1 7 1 then some [rowBatch 1] else none
    issued := [7] }

/-- `oneRow` as a store. -/
def oneRowStore : Store := { emptyStore with toWorld := oneRow }

/-- The statement `UPDATE d.s.t SET a = n`. -/
def updateAll (n : ℤ) : DmlStatement := .update "d" "s" "t" [("a", .int64 n)] none

/-- The statement `DELETE FROM d.s.t`. -/
def deleteAll : DmlStatement := .delete "d" "s" "t" none

/-- The statement `INSERT INTO d.s.t VALUES (n)`. -/
def insertOne (n : ℤ) : DmlStatement := .insert "d" "s" "t" [[.int64 n]]

end NovaCore
