import NovaCore.Sql.Statement
import NovaCore.Data.Bytes

/-!
# Resolution of statements

`Analyzer::resolve` in full.  Names of tables are resolved to their last part in the default
database and schema, names of functions to all their parts.  Statements that the SQL grammar does
not have arrive as a CREATE TABLE or DROP TABLE whose name starts with a marker, and the analyzer
takes them apart again; a table that a user has named like a marker is treated in the same way.

## Main definitions

* `Resolver.decodeHexPayload`, `Resolver.resolveFunctionSignatureText` : the payloads of markers.
* `Resolver.resolveCreateTable`, `Resolver.resolveDrop` : statements that may carry a marker.
* `Resolver.resolve` : the analysis of a statement.
-/

namespace NovaCore.Sql

open Str

/-- The text of a name. -/
abbrev text (s : String) : Str := s.toList

@[simp] theorem text_ofList (s : Str) : text (String.ofList s) = s := String.toList_ofList

/-- `str::parse` for an unsigned integer below `bound`. -/
def parseUnsigned (bound : ℕ) (s : Str) : Option ℕ :=
  (match s with
    | '+' :: cs => parseDigits cs
    | cs => parseDigits cs).filter (· < bound)

/-- `normalize_function_type`. -/
def normalizeFunctionType (dataType : Str) : Str :=
  toAsciiUppercase (List.intercalate [' '] (splitWhitespace dataType))

/-- `FunctionSignature::new`. -/
def FunctionSignature.new (argTypes : List Str) : FunctionSignature :=
  ⟨argTypes.map normalizeFunctionType⟩

/-- `FunctionSignature::key`. -/
def FunctionSignature.key (s : FunctionSignature) : Str := List.intercalate [','] s.argTypes

/-- An analyzer, with the texts that its errors quote. -/
structure Resolver extends Analyzer where
  caseMap : CaseMap
  /-- The text of a name. -/
  displayName : ObjectName → String
  /-- The `Debug` text of a statement. -/
  debugStatement : Statement → String

namespace Resolver

variable (a : Resolver)

/-- An error of the analysis. -/
def fail {α : Type} (message : String) : Except NovaError α := .error (.sqlAnalysisError message)

/-! ### Payloads -/

/-- The loop of `decode_hex_payload` over pairs of bytes; a slice that cuts a character panics. -/
def hexPairs : ℕ → Str → Except NovaError Bytes
  | 0, _ => .ok []
  | n + 1, value => match splitAt? value 2 with
    | none => .error (.panicked "byte index is not a char boundary")
    | some (pair, rest) => match hexByte? pair with
      | none => fail "invalid encoded stream payload"
      | some b => (hexPairs n rest).map (UInt8.ofNat b :: ·)

/-- `decode_hex_payload`. -/
def decodeHexPayload (value : Str) : Except NovaError String :=
  if byteLen value % 2 ≠ 0 then fail "invalid encoded stream payload"
  else do
    let bytes ← hexPairs (byteLen value / 2) value
    match ofUtf8 bytes with
    | some s => .ok s
    | none => fail "invalid UTF-8 stream payload"

variable (name : ObjectName)

/-- `resolve_object_name`. -/
def resolveObjectName : Except NovaError (String × String × String) :=
  match name with
  | [function] => .ok (a.defaultDb, a.defaultSchema, function)
  | [schema, function] => .ok (a.defaultDb, schema, function)
  | [db, schema, function] => .ok (db, schema, function)
  | _ => fail s!"unsupported object name: {a.displayName name}"

/-- `resolve_function_signature_text`. -/
def resolveFunctionSignatureText (functionText : Str) :
    Except NovaError (String × String × String × FunctionSignature) :=
  let shown := String.ofList functionText
  match rsplitOnce? functionText '(' with
  | none => fail s!"function signature '{shown}' is missing argument list"
  | some (beforeOpen, _) =>
    match rsplitOnce? functionText ')' with
    | none => fail s!"function signature '{shown}' is missing ')'"
    | some (beforeClose, _) =>
      if beforeClose.length < beforeOpen.length then fail s!"invalid function signature '{shown}'"
      else
        let nameText := trim beforeOpen
        if nameText = [] then fail "function signature is missing a function name"
        else
          let nameParts := (((split nameText ['.']).map trim).filter (· ≠ [])).map String.ofList
          let argText := trim (beforeClose.drop (beforeOpen.length + 1))
          let argTypes := if argText = [] then []
            else ((split argText [',']).map trim).filter (· ≠ [])
          match nameParts with
          | [function] =>
            .ok (a.defaultDb, a.defaultSchema, function, FunctionSignature.new argTypes)
          | [schema, function] =>
            .ok (a.defaultDb, schema, function, FunctionSignature.new argTypes)
          | [db, schema, function] => .ok (db, schema, function, FunctionSignature.new argTypes)
          | _ => fail s!"unsupported function name: {String.ofList nameText}"

/-! ### Functions and grants -/

/-- `require_function_usage_privilege`. -/
def requireFunctionUsagePrivilege : Privileges → Except NovaError Unit
  | .actions [true] => .ok ()
  | _ => fail "only USAGE can be granted or revoked on FUNCTION"

/-- `encoded_function_grant_object`. -/
def encodedFunctionGrantObject : GrantObjects → Except NovaError Str
  | .other => fail "only FUNCTION grants are supported by this GRANT/REVOKE path"
  | .tables [] => fail "FUNCTION grant requires an object"
  | .tables (_ :: _ :: _) => fail "FUNCTION grant supports one function at a time"
  | .tables [[]] => fail "FUNCTION grant object is missing"
  | .tables [ident :: _] =>
    match strip? (text ident) (text "__fn_rbac__") with
    | none => fail "only GRANT/REVOKE ... ON FUNCTION is supported"
    | some encoded => match splitOnce? encoded (text "__") with
      | none => fail "invalid encoded FUNCTION grant object"
      | some (functionText, _) => .ok functionText

/-- `resolve_function_args`. -/
def resolveFunctionArgs (args : List OperateFunctionArg) : Except NovaError (List FunctionArg) :=
  args.zipIdx.mapM fun (arg, idx) =>
    if arg.out then fail "only scalar IN function arguments are supported"
    else .ok ⟨arg.name.getD s!"arg{idx + 1}", arg.dataType, arg.defaultExpr⟩

/-- The signature of resolved arguments. -/
def signatureOf (args : List FunctionArg) : FunctionSignature :=
  FunctionSignature.new (args.map fun arg => text arg.dataType)

/-- `function_volatility`. -/
def functionVolatility : Option FunctionBehavior → FunctionBehavior
  | some .stable => .stable
  | some .volatile => .volatile
  | _ => .immutable

/-- `function_null_handling`. -/
def functionNullHandling : Option FunctionCalledOnNull → FunctionNullHandling
  | some .calledOnNullInput => .calledOnNullInput
  | some .strict => .strict
  | _ => .returnsNullOnNullInput

/-- The name that `FunctionLanguage::from_name` compares. -/
def languageName (language : Option String) : Str :=
  toAsciiUppercase (trim (text (language.getD "SQL")))

/-- The text of a language, as its errors show it. -/
def displayLanguage (name : Str) : String :=
  if name = text "JS" then "JAVASCRIPT"
  else if name = text "WEBASSEMBLY" then "WASM"
  else String.ofList name

/-- `resolve` of CREATE FUNCTION. -/
def resolveCreateFunction (f : CreateFunction) : Except NovaError Resolved := do
  let (db, schema, name) ← a.resolveObjectName f.name
  let language := languageName f.language
  if language ≠ text "SQL" then
    fail
      s!"function language {displayLanguage language} is not supported yet; only SQL is supported"
  else
    let returnType ← match f.returnType with
      | some returnType => .ok returnType
      | none => fail "CREATE FUNCTION requires RETURNS <type>"
    let body ← match f.functionBody with
      | some body => .ok body
      | none => fail "CREATE FUNCTION requires AS <expression>"
    let args ← resolveFunctionArgs f.args
    return .createFunction db schema name args (signatureOf args) returnType body
      (functionVolatility f.behavior) (functionNullHandling f.calledOnNull) f.orReplace
      f.ifNotExists

/-- `resolve` of DROP FUNCTION. -/
def resolveDropFunction (ifExists : Bool)
    (functions : List (ObjectName × List OperateFunctionArg)) : Except NovaError Resolved :=
  match functions with
  | [] => fail "DROP FUNCTION requires a function name"
  | _ :: _ :: _ => fail "DROP FUNCTION supports one function at a time"
  | [function] => do
    let (db, schema, name) ← a.resolveObjectName function.1
    let args ← resolveFunctionArgs function.2
    return .dropFunction db schema name (signatureOf args) ifExists

/-- The role of a grant or revocation; `what` is the word of the errors. -/
def grantee (what : String) : List String → Except NovaError String
  | [] => fail s!"FUNCTION {what} requires a target role"
  | _ :: _ :: _ => fail s!"FUNCTION {what} supports one role at a time"
  | [role] => .ok role

/-- The last steps of `resolve` of GRANT and REVOKE. -/
def resolveFunctionUsage (what : String) (privileges : Privileges) (objects : GrantObjects)
    (grantees : List String) :
    Except NovaError (String × String × String × FunctionSignature × String) := do
  requireFunctionUsagePrivilege privileges
  let role ← grantee what grantees
  let functionText ← encodedFunctionGrantObject objects
  let (db, schema, name, signature) ← a.resolveFunctionSignatureText functionText
  return (db, schema, name, signature, role)

/-- `resolve` of GRANT. -/
def resolveGrant (privileges : Privileges) (objects : GrantObjects) (grantees : List String)
    (withGrantOption : Bool) (grantedBy : Option String) : Except NovaError Resolved :=
  if withGrantOption then fail "WITH GRANT OPTION is not supported for FUNCTION grants yet"
  else if grantedBy.isSome then fail "GRANTED BY is not supported for FUNCTION grants yet"
  else do
    let (db, schema, name, signature, role) ←
      a.resolveFunctionUsage "grant" privileges objects grantees
    return .grantFunctionUsage db schema name signature role

/-- `resolve` of REVOKE. -/
def resolveRevoke (privileges : Privileges) (objects : GrantObjects) (grantees : List String)
    (grantedBy : Option String) (cascade : Bool) : Except NovaError Resolved :=
  if grantedBy.isSome then fail "GRANTED BY is not supported for FUNCTION revokes yet"
  else if cascade then fail "CASCADE is not supported for FUNCTION revokes yet"
  else do
    let (db, schema, name, signature, role) ←
      a.resolveFunctionUsage "revoke" privileges objects grantees
    return .revokeFunctionUsage db schema name signature role

/-! ### CREATE TABLE and its markers -/

/-- The mode that a marker names. -/
def refreshModeOf (mode : Str) : RefreshMode :=
  if mode = text "INCREMENTAL" then .incremental
  else if mode = text "FULL" then .full
  else .auto

/-- The query that a marker carries in the comment of its first column. -/
def markerQuery (columns : List ColumnDef) : Str :=
  match columns.head?.bind fun c => c.options.findSome? fun
    | .comment s => some (replace (text s) '_' ' ')
    | _ => none with
  | some query => query
  | none => []

/-- `resolve` of a dynamic table: the name is `__dt_<name>__<lag>__<mode>__<init>`. -/
def resolveDynamicTable (ident : String) (columns : List ColumnDef) : Resolved :=
  let parts := splitn 5 (text ident) (text "__")
  let name := (strip? (parts.getD 1 []) (text "dt_")).getD []
  let lag := (parts[2]?.bind (parseUnsigned (2 ^ 64))).getD 300
  let mode := refreshModeOf (parts.getD 3 (text "AUTO"))
  let init := parts.getD 4 (text "ON_CREATE")
  .createDynamicTable a.defaultDb a.defaultSchema (String.ofList name)
    (String.ofList (markerQuery columns)) lag mode (init ≠ text "ON_SCHEDULE")

/-- `resolve` of a stream: the marker is `__STREAM__<name>__<table>__<append_only>`. -/
def resolveCreateStream (ident : String) : Resolved :=
  let parts := split (text ident) (text "__")
  .createStream a.defaultDb a.defaultSchema (String.ofList (parts.getD 2 []))
    (String.ofList (parts.getD 3 [])) (parts.getD 4 [] = text "true")

/-- The parts of a name that start with a marker. -/
def marked? (marker : String) (name : ObjectName) : Option String :=
  name.find? fun i => text marker <+: text i

/-- `resolve` of CREATE TABLE. -/
def resolveCreateTable (columns : List ColumnDef) : Except NovaError Resolved :=
  match marked? "__dt_" name with
  | some ident => .ok (a.resolveDynamicTable ident columns)
  | none => match marked? "__CLONE__" name with
    | some ident =>
      .ok (.createClone a.defaultDb a.defaultSchema (name.headD "")
        (String.ofList ((text ident).drop (text "__CLONE__").length)))
    | none => match marked? "__STREAM__" name with
      | some ident => .ok (a.resolveCreateStream ident)
      | none => match name.getLast? with
        | none => fail "missing table name"
        | some table => .ok (.createTable a.defaultDb a.defaultSchema table
            (columns.map fun c => ⟨c.name, c.dataType, .notNull ∉ c.options⟩))

/-! ### DROP and its markers -/

/-- Time travel: the marker is `__tt_<ts>__<sql>`. -/
def resolveTimeTravel (rest : Str) : Resolved :=
  let parts := splitn 2 rest (text "__")
  .dml (.select {
    db := a.defaultDb
    schema := a.defaultSchema
    table := ""
    dependencies := []
    projection := ["*"]
    atTimestamp := some ((parts.head?.bind (parseUnsigned (2 ^ 64))).getD 0)
    rawSql := some (String.ofList (replace (parts.getD 1 []) '_' ' ')) })

/-- `str::trim_end_matches("__")`. -/
def trimEndUnderscores (s : Str) : Str := (trimStartText (text "__") s.length s.reverse).reverse

/-- The days of a GC marker `__gc_<days>__`. -/
def gcRetention (name : Str) : ℕ :=
  (parseUnsigned (2 ^ 32) (trimEndUnderscores (trimStartText (text "__gc_") name.length name))).getD
    30

/-- The action of an ALTER marker `<name>_<ACTION>`. -/
def resolveAlterDynamicTable (rest : Str) : Resolved :=
  let (name, action) := (rsplitOnce? rest '_').getD (rest, text "REFRESH")
  let action := a.caseMap.toUppercase action
  if action = text "SUSPEND" then
    .suspendDynamicTable a.defaultDb a.defaultSchema (String.ofList name)
  else if action = text "RESUME" then
    .resumeDynamicTable a.defaultDb a.defaultSchema (String.ofList name)
  else .refreshDynamicTable a.defaultDb a.defaultSchema (String.ofList name)

/-- The markers of a DROP TABLE, in the order in which `resolve` looks for them. -/
inductive DropMarker
  | timeTravel
  | gc
  | dropStream
  | showStreams
  | describeStream
  | streamPreviewHex
  | streamPreview
  | streamHasData
  | backup
  | restore
  | alterDynamicTable
  | dropDynamicTable
  | showDynamicTables
  | showGrantsOn
  | showGrantsTo
  deriving DecidableEq

namespace DropMarker

/-- The text that a marker starts with. -/
def start : DropMarker → String
  | timeTravel => "__tt_"
  | gc => "__gc_"
  | dropStream => "__drop_stream__"
  | showStreams => "__show_streams_hex__"
  | describeStream => "__describe_stream__"
  | streamPreviewHex => "__stream_read_preview_hex__"
  | streamPreview => "__stream_read_preview__"
  | streamHasData => "__stream_has_data__"
  | backup => "__backup__"
  | restore => "__restore__"
  | alterDynamicTable => "__alter_dt__"
  | dropDynamicTable => "__drop_dt__"
  | showDynamicTables => "__show_dt__"
  | showGrantsOn => "__show_fn_grants_on__"
  | showGrantsTo => "__show_fn_grants_to__"

/-- All markers, in order. -/
def all : List DropMarker :=
  [timeTravel, gc, dropStream, showStreams, describeStream, streamPreviewHex, streamPreview,
    streamHasData, backup, restore, alterDynamicTable, dropDynamicTable, showDynamicTables,
    showGrantsOn, showGrantsTo]

/-- The marker that a name starts with. -/
def of? (name : Str) : Option DropMarker := all.find? fun m => text m.start <+: name

theorem mem_all (m : DropMarker) : m ∈ all := by cases m <;> decide

theorem start_isPrefix_iff {m n : DropMarker} : text m.start <+: text n.start ↔ m = n := by
  have h : ∀ m ∈ all, ∀ n ∈ all, text m.start <+: text n.start ↔ m = n := by decide +kernel
  exact h m m.mem_all n n.mem_all

/-- No marker starts with another one, so at most one starts a name. -/
theorem start_isPrefix_append_iff (m n : DropMarker) (rest : Str) :
    text m.start <+: text n.start ++ rest ↔ m = n := by
  constructor
  · intro h
    rcases List.prefix_or_prefix_of_prefix h (List.prefix_append _ rest) with h | h
    · exact start_isPrefix_iff.1 h
    · exact (start_isPrefix_iff.1 h).symm
  · rintro rfl
    exact List.prefix_append _ _

theorem of?_start_append (m : DropMarker) (rest : Str) : of? (text m.start ++ rest) = some m := by
  unfold of?
  simp only [start_isPrefix_append_iff]
  cases m <;> decide

end DropMarker

/-- A text that is not empty. -/
def nonempty? (s : Str) : Option String := if s = [] then none else some (String.ofList s)

/-- `resolve` of a DROP whose name starts with a marker; `rest` is what follows it. -/
def resolveMarker (name rest : Str) : DropMarker → Except NovaError Resolved
  | .timeTravel => .ok (a.resolveTimeTravel rest)
  | .gc => .ok (.gc (gcRetention name))
  | .dropStream => .ok (.dropStream a.defaultDb a.defaultSchema (String.ofList rest))
  | .showStreams =>
    if rest = [] then .ok (.showStreams a.defaultDb a.defaultSchema none)
    else do
      let pattern ← decodeHexPayload rest
      return .showStreams a.defaultDb a.defaultSchema (some pattern)
  | .describeStream => .ok (.describeStream a.defaultDb a.defaultSchema (String.ofList rest))
  | .streamPreviewHex => match splitOnce? rest (text "__") with
    | none => .error (.unsupportedStreamSyntax "invalid stream preview marker")
    | some (streamHex, sqlHex) => do
      let streamName ← decodeHexPayload streamHex
      let rawSql ← decodeHexPayload sqlHex
      return .readStream a.defaultDb a.defaultSchema streamName rawSql
  | .streamPreview =>
    let streamName := String.ofList rest
    .ok (.readStream a.defaultDb a.defaultSchema streamName s!"SELECT * FROM {streamName}")
  | .streamHasData => .ok (.systemStreamHasData a.defaultDb a.defaultSchema (String.ofList rest))
  | .backup => .ok (.backup (nonempty? rest))
  | .restore => .ok (.restore (String.ofList rest))
  | .alterDynamicTable => .ok (a.resolveAlterDynamicTable rest)
  | .dropDynamicTable => .ok (.dropDynamicTable a.defaultDb a.defaultSchema (String.ofList rest))
  | .showDynamicTables => .ok (.showDynamicTables a.defaultDb (nonempty? rest))
  | .showGrantsOn => do
    let (db, schema, name, signature) ← a.resolveFunctionSignatureText rest
    return .showGrantsOnFunction db schema name signature
  | .showGrantsTo => .ok (.showGrantsToRole (String.ofList rest))

/-- The first part of the first name of a DROP. -/
def dropName (names : List ObjectName) : String := (names.head?.bind (·.head?)).getD ""

/-- The last part of the first name of a DROP. -/
def dropLast (names : List ObjectName) : String := (names.head?.bind (·.getLast?)).getD ""

/-- `resolve` of DROP. -/
def resolveDrop (objectType : ObjectType) (names : List ObjectName) : Except NovaError Resolved :=
  let name := text (dropName names)
  match DropMarker.of? name with
  | some marker => a.resolveMarker name (name.drop (text marker.start).length) marker
  | none => match objectType with
    | .table => .ok (.dropTable a.defaultDb a.defaultSchema (dropLast names))
    | .database => .ok (.dropDatabase (dropLast names))
    | .schema => .ok (.dropSchema a.defaultDb (dropLast names))
    | .other => fail s!"unsupported DROP: {dropName names}"

/-! ### Statements -/

/-- The column that an operation adds. -/
def addedColumn? : AlterTableOperation → Option ColumnDef
  | .addColumn column => some column
  | .other => none

/-- `resolve` of ALTER TABLE: the first operation that adds a column. -/
def resolveAlterTable (operations : List AlterTableOperation) : Except NovaError Resolved :=
  match operations.findSome? addedColumn? with
  | some column => .ok (.alterTable a.defaultDb a.defaultSchema (name.getLastD "")
      (.addColumn column.name column.dataType))
  | none => fail "unsupported ALTER TABLE operation"

/-- `Analyzer::resolve`. -/
def resolve (stmt : Statement) : Except NovaError Resolved :=
  match stmt with
  | .createDatabase name => match name.head? with
    | some name => .ok (.createDatabase name)
    | none => fail "missing database name"
  | .createFunction function => a.resolveCreateFunction function
  | .createTable name columns => a.resolveCreateTable name columns
  | .grant privileges objects grantees withGrantOption grantedBy =>
    a.resolveGrant privileges objects grantees withGrantOption grantedBy
  | .revoke privileges objects grantees grantedBy cascade =>
    a.resolveRevoke privileges objects grantees grantedBy cascade
  | .dml stmt _ => (a.toAnalyzer.resolve stmt).map .dml
  | .dropFunction ifExists functions => a.resolveDropFunction ifExists functions
  | .drop objectType names => a.resolveDrop objectType names
  | .alterTable name operations => a.resolveAlterTable name operations
  | .startTransaction => .ok .begin
  | .commit => .ok .commit
  | .rollback => .ok .rollback
  | .other _ => fail s!"unsupported statement: {a.debugStatement stmt}"

/-- A DROP whose name starts with a marker. -/
theorem resolve_marked {m : DropMarker} {ty : ObjectType} {names : List ObjectName} {rest : Str}
    (h : text (dropName names) = text m.start ++ rest) :
    a.resolve (.drop ty names) = a.resolveMarker (text m.start ++ rest) rest m := by
  rw [resolve]
  unfold resolveDrop
  dsimp only
  rw [h, DropMarker.of?_start_append]
  dsimp only
  rw [List.drop_left]

end Resolver

end NovaCore.Sql
