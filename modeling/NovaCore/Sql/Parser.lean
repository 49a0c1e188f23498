import NovaCore.Sql.Resolve

/-!
# The parser

`SqlParser::parse` looks for the statements that the SQL grammar does not have before it calls
`sqlparser`.  It searches the text in upper case for keywords, wherever they stand, takes the parts
of the statement out of the text, and writes them into the name of a CREATE TABLE or DROP TABLE that
`sqlparser` can read.  Positions are found in the upper-case text and used in the text itself.

Only `sqlparser` is a parameter.  A slice off a character boundary, an index out of bounds and an
arithmetic overflow are the error `panicked`.

## Main definitions

* `Form`, `Parser.form` : the keywords, in the order in which they are looked for.
* `Parser.prepare` : what is handed to `sqlparser`.
* `Parser.parse` : the statements of a text.
-/

namespace NovaCore.Sql

open Str

variable (s : Str)

/-- The text starts with a keyword. -/
def startsWith (keyword : String) : Bool := text keyword <+: s

/-- The text contains a keyword. -/
def contains (keyword : String) : Bool := text keyword <:+: s

/-! ### Panics -/

/-- `&s[n..]`. -/
def sliceFrom (n : ℕ) : Except NovaError Str :=
  match splitAt? s n with
  | some (_, after) => .ok after
  | none => .error (.panicked "byte index is out of range or not a char boundary")

/-- `&s[..n]`. -/
def sliceTo (n : ℕ) : Except NovaError Str :=
  match splitAt? s n with
  | some (before, _) => .ok before
  | none => .error (.panicked "byte index is out of range or not a char boundary")

/-- `&s[m..n]`. -/
def slice (s : Str) (m n : ℕ) : Except NovaError Str :=
  if n < m then .error (.panicked "slice starts behind its end")
  else do
    let before ← sliceTo s n
    sliceFrom before m

/-- `parts[i]`. -/
def index (parts : List Str) (i : ℕ) : Except NovaError Str :=
  match parts[i]? with
  | some part => .ok part
  | none => .error (.panicked "index out of bounds")

/-! ### What is handed to `sqlparser` -/

/-- The change that is made to the first statement if it is a CREATE TABLE. -/
inductive Patch
  | none
  | clone (source : Str)
  | stream (name table : Str) (appendOnly : Bool)

namespace Patch

/-- The change to a CREATE TABLE. -/
def applyTable (name : ObjectName) (columns : List ColumnDef) : Patch → Statement
  | none => .createTable name columns
  | clone source => .createTable (name ++ [String.ofList (text "__CLONE__" ++ source)])
      [⟨"__clone_source__", "VARCHAR", []⟩]
  | stream streamName table appendOnly => .createTable
      (name ++ [String.ofList (text "__STREAM__" ++ streamName ++ text "__" ++ table ++ text "__" ++
        text (toString appendOnly))]) []

/-- The change to the statements that `sqlparser` returns. -/
def apply (p : Patch) : List Statement → List Statement
  | .createTable name columns :: stmts => p.applyTable name columns :: stmts
  | stmts => stmts

end Patch

/-- What is left to do after the search for keywords. -/
inductive Prepared
  /-- Read a text with `sqlparser`; `context` stands before its errors. -/
  | sql (sql : Str) (patch : Patch) (context : String)
  | statements (stmts : List Statement)

/-- Read a text with `sqlparser` and return what it returns. -/
def Prepared.fake (sql : Str) : Prepared := .sql sql .none ""

/-- An error of the parser. -/
def parseFail {α : Type} (message : String) : Except NovaError α := .error (.sqlParseError message)

/-- An error about streams. -/
def streamFail {α : Type} (message : String) : Except NovaError α :=
  .error (.unsupportedStreamSyntax message)

/-- `SqlParser`, with the upper case of characters and `sqlparser` as parameters. -/
structure Parser where
  caseMap : CaseMap
  /-- `Parser::parse_sql(&GenericDialect {}, sql)`; an error is given by its text. -/
  parseSql : Str → Except String (List Statement)

/-- `s.trim_end_matches(';')`. -/
def trimSemicolons : Str := trimEndMatches (· = ';') s

/-- The first word that is equal to a keyword. -/
def wordPosition (parts : List Str) (keyword : String) : Option ℕ :=
  parts.findIdx? fun p => eqIgnoreAsciiCase p (text keyword)

/-- `hex_payload`. -/
def hexPayload (value : Str) : Str := (utf8 (String.ofList value)).flatMap hexChars

namespace Parser

variable (p : Parser)

/-! ### Clones and streams -/

variable (sql : Str)

/-- `parse_clone`. -/
def parseClone : Except NovaError Prepared :=
  let parts := splitWhitespace sql
  if parts.length < 5 then parseFail "CLONE syntax: CREATE TABLE <new> CLONE <source>"
  else match wordPosition parts "CLONE" with
    | none => parseFail "missing CLONE keyword"
    | some 0 => .error (.panicked "attempt to subtract with overflow")
    | some (before + 1) => do
      let newTable ← index parts before
      let sourceTable ← index parts (before + 2)
      return .sql (text "CREATE TABLE " ++ trimSemicolons newTable ++
        text " (__clone_source__ VARCHAR, __clone_ts__ VARCHAR)")
        (.clone (trimSemicolons sourceTable)) ""

/-- `parse_stream`. -/
def parseStream : Except NovaError Prepared :=
  if contains (p.caseMap.toUppercase sql) "APPEND ONLY" then
    streamFail "APPEND ONLY streams are not supported"
  else
    let parts := splitWhitespace sql
    if parts.length < 6 then parseFail "STREAM syntax: CREATE STREAM <name> ON TABLE <table>"
    else do
      let streamName ← index parts 2
      match wordPosition parts "TABLE" with
      | none => parseFail "missing TABLE keyword in CREATE STREAM"
      | some tablePos =>
        let table ← index parts (tablePos + 1)
        let streamName := trimSemicolons streamName
        let table := trimSemicolons table
        return .sql (text "CREATE TABLE __stream_" ++ streamName ++ text "_on_" ++ table ++
          text " (__stream_name__ VARCHAR)")
          (.stream streamName table (contains (p.caseMap.toUppercase sql) "APPEND ONLY")) ""

/-- A statement whose third word is the name of a stream. -/
def parseStreamName (usage marker : String) (sql : Str) : Except NovaError Prepared :=
  match (splitWhitespace sql)[2]? with
  | none => parseFail usage
  | some name => .ok (.fake (text "DROP TABLE " ++ text marker ++ trimSemicolons name))

/-- `parse_drop_stream`. -/
def parseDropStream : Str → Except NovaError Prepared :=
  parseStreamName "DROP STREAM syntax: DROP STREAM <name>" "__drop_stream__"

/-- `parse_describe_stream`. -/
def parseDescribeStream : Str → Except NovaError Prepared :=
  parseStreamName "DESCRIBE STREAM syntax: DESCRIBE STREAM <name>" "__describe_stream__"

/-- The pattern of a SHOW statement: what follows LIKE, without semicolons and quotes. -/
def likePattern : Except NovaError Str :=
  match find? (p.caseMap.toUppercase sql) (text " LIKE ") with
  | none => .ok []
  | some likePos => do
    let rest ← sliceFrom sql (likePos + 6)
    return trimMatches (· = '\'') (trim (trimMatches (· = ';') (trim rest)))

/-- `parse_show_streams`. -/
def parseShowStreams : Except NovaError Prepared := do
  let pattern ← p.likePattern sql
  return .fake (text "DROP TABLE __show_streams_hex__" ++ hexPayload pattern)

/-- `extract_select_from_relation`. -/
def extractSelectFromRelation : Option Str := do
  let parts := splitWhitespace sql
  let fromPos ← wordPosition parts "FROM"
  let relation ← parts[fromPos + 1]?
  return trimEndMatches (· = ',') (trimSemicolons relation)

/-- `parse_stream_read`. -/
def parseStreamRead : Except NovaError Prepared :=
  let upper := p.caseMap.toUppercase sql
  if !contains upper "COMMIT = FALSE" && !contains upper "COMMIT=FALSE" then
    streamFail "stream SELECT WITH currently supports COMMIT = FALSE only"
  else match extractSelectFromRelation sql with
    | none =>
      streamFail "stream SELECT syntax: SELECT ... FROM <stream> WITH (COMMIT = FALSE)"
    | some streamName => .ok (.fake (text "DROP TABLE __stream_read_preview_hex__" ++
        hexPayload streamName ++ text "__" ++ hexPayload sql))

/-- `parse_system_stream_has_data`. -/
def parseSystemStreamHasData : Except NovaError Prepared :=
  match splitOnce? sql ['('] with
  | none => streamFail "SYSTEM$STREAM_HAS_DATA requires a stream name argument"
  | some (beforeOpen, _) =>
    match rsplitOnce? sql ')' with
    | none => streamFail "SYSTEM$STREAM_HAS_DATA requires a closing ')'"
    | some (beforeClose, _) =>
      if byteLen beforeClose ≤ byteLen beforeOpen then
        streamFail "SYSTEM$STREAM_HAS_DATA requires a stream name argument"
      else do
        let argument ← slice sql (byteLen beforeOpen + 1) (byteLen beforeClose)
        let streamName :=
          trimSemicolons (trimMatches (fun c => c = '\'' || c = '"') (trim argument))
        if streamName = [] then
          streamFail "SYSTEM$STREAM_HAS_DATA requires a non-empty stream name"
        else .ok (.fake (text "DROP TABLE __stream_has_data__" ++ streamName))

/-! ### Dynamic tables -/

/-- The number and the seconds of its unit in `TARGET_LAG = '<n> unit'`. -/
def targetLag? (header : Str) : Option (ℕ × ℕ) := do
  let (_, after) ← splitOnce? header (text "TARGET_LAG")
  let (_, afterQuote) ← splitOnce? after ['\'']
  let (lagText, _) ← splitOnce? afterQuote ['\'']
  let parts := splitn 2 (p.caseMap.toUppercase (trim lagText)) [' ']
  let n ← parts.head?.bind (parseUnsigned (2 ^ 64))
  let unit := parts.getD 1 []
  let multiplier := if startsWith unit "SECOND" then 1
    else if startsWith unit "MINUTE" then 60
    else if startsWith unit "HOUR" then 3600
    else if startsWith unit "DAY" then 86400
    else 60
  return (n, multiplier)

/-- `parse_target_lag`. -/
def parseTargetLag (header : Str) : Except NovaError (Option ℕ) :=
  match p.targetLag? header with
  | none => .ok none
  | some (n, multiplier) =>
    if n * multiplier < 2 ^ 64 then .ok (some (n * multiplier))
    else .error (.panicked "attempt to multiply with overflow")

/-- The refresh mode that the text before AS names. -/
def headerMode (header : Str) : String :=
  if contains header "REFRESH_MODE = INCREMENTAL" || contains header "REFRESH_MODE=INCREMENTAL" then
    "INCREMENTAL"
  else if contains header "REFRESH_MODE = FULL" || contains header "REFRESH_MODE=FULL" then "FULL"
  else "AUTO"

/-- The initialization that the text before AS names. -/
def headerInit (header : Str) : String :=
  if contains header "INITIALIZE = ON_SCHEDULE" || contains header "INITIALIZE=ON_SCHEDULE" then
    "ON_SCHEDULE"
  else "ON_CREATE"

/-- The query as it is written into the marker: spaces become underscores, quotes vanish. -/
def encodeQuery (query : Str) : Str :=
  (query.map fun c => if c = ' ' then '_' else if c = '\'' || c = '"' then ' ' else c).filter
    (· ≠ ' ')

/-- `parse_dynamic_table`. -/
def parseDynamicTable : Except NovaError Prepared :=
  match splitOnce? (p.caseMap.toUppercase sql) (text " AS ") with
  | none => parseFail "DYNAMIC TABLE syntax: missing AS <query>"
  | some (header, _) => do
    let asPos := byteLen header
    let query ← sliceFrom sql (asPos + 4)
    let before ← sliceTo sql asPos
    let parts := splitWhitespace before
    let tablePos := (wordPosition parts "TABLE").getD 0
    let name := trimSemicolons (parts.getD (tablePos + 1) (text "unknown"))
    let lag ← p.parseTargetLag header
    return .sql (text "CREATE TABLE __dt_" ++ name ++ text "__" ++ text (toString (lag.getD 300)) ++
      text "__" ++ text (headerMode header) ++ text "__" ++ text (headerInit header) ++
      text " (__dt_query__ VARCHAR COMMENT '" ++ encodeQuery (trim query) ++ text "')")
      .none "dynamic table encode failed: "

/-- `parse_alter_dynamic_table`. -/
def parseAlterDynamicTable : Except NovaError Prepared :=
  let parts := splitWhitespace sql
  if parts.length < 5 then
    parseFail "ALTER DYNAMIC TABLE syntax: ALTER DYNAMIC TABLE <name> REFRESH|SUSPEND|RESUME"
  else do
    let name ← index parts 3
    let action ← index parts 4
    return .fake (text "DROP TABLE __alter_dt__" ++ trimSemicolons name ++ ['_'] ++
      p.caseMap.toUppercase (trimSemicolons action))

/-- `parse_drop_dynamic_table`. -/
def parseDropDynamicTable : Except NovaError Prepared :=
  let parts := splitWhitespace sql
  if parts.length < 4 then
    parseFail "DROP DYNAMIC TABLE syntax: DROP DYNAMIC TABLE <name>"
  else do
    let name ← index parts 3
    return .fake (text "DROP TABLE __drop_dt__" ++ trimSemicolons name)

/-- `parse_show_dynamic_tables`. -/
def parseShowDynamicTables : Except NovaError Prepared := do
  let pattern ← p.likePattern sql
  return .fake (text "DROP TABLE __show_dt__" ++ pattern)

/-! ### Grants -/

variable (revoke : Bool)

/-- The words before the role. -/
def roleMarker : String := if revoke then " FROM ROLE " else " TO ROLE "

/-- The word for the statement in errors. -/
def grantWord : String := if revoke then "revoke" else "grant"

/-- `parse_function_grant`. -/
def parseFunctionGrant : Except NovaError Prepared :=
  let upper := p.caseMap.toUppercase sql
  match find? upper (text " ON FUNCTION ") with
  | none => parseFail "FUNCTION grant syntax: missing ON FUNCTION"
  | some onFunctionPos =>
    if toAsciiUppercase (trim ((splitWhitespace sql).getD 1 [])) ≠ text "USAGE" then
      parseFail "only USAGE can be granted on FUNCTION"
    else match find? upper (text (roleMarker revoke)) with
      | none => parseFail (s!"FUNCTION {grantWord revoke} syntax: missing" ++
          String.ofList (trimEndMatches isWhitespace (text (roleMarker revoke))))
      | some markerPos => do
        let functionText ← slice sql (onFunctionPos + 13) markerPos
        let roleText ← sliceFrom sql (markerPos + (roleMarker revoke).length)
        let functionText := trim functionText
        let role := trim (trimSemicolons (trim roleText))
        if functionText = [] ∨ role = [] then
          parseFail "FUNCTION grant syntax requires function signature and role"
        else
          let object := String.ofList (text "__fn_rbac__" ++ functionText.filter (· ≠ ' ') ++
            text "__" ++ role)
          let grantees := [String.ofList role]
          return .statements [if revoke
            then .revoke (.actions [true]) (.tables [[object]]) grantees none false
            else .grant (.actions [true]) (.tables [[object]]) grantees false none]

/-- `parse_show_grants`. -/
def parseShowGrants : Except NovaError Prepared :=
  let trimmed := trim (trimSemicolons (trim sql))
  let upper := p.caseMap.toUppercase trimmed
  match find? upper (text "SHOW GRANTS ON FUNCTION ") with
  | some pos => do
    let rest ← sliceFrom trimmed (pos + 24)
    if trim rest = [] then parseFail "SHOW GRANTS ON FUNCTION requires a function signature"
    else return .statements [.drop .table
      [[String.ofList (text "__show_fn_grants_on__" ++ (trim rest).filter (· ≠ ' '))]]]
  | none => match find? upper (text "SHOW GRANTS TO ROLE ") with
    | some pos => do
      let rest ← sliceFrom trimmed (pos + 20)
      if trim rest = [] then parseFail "SHOW GRANTS TO ROLE requires a role name"
      else return .statements [.drop .table
        [[String.ofList (text "__show_fn_grants_to__" ++ trim rest)]]]
    | none => parseFail ("SHOW GRANTS syntax: SHOW GRANTS ON FUNCTION <name>(<types>) or " ++
        "SHOW GRANTS TO ROLE <role>")

/-! ### Time travel and maintenance -/

/-- The timestamp in `=> <ts>)`, zero if it is no number. -/
def timestampOf (afterArrow : Str) : ℕ :=
  let tsText := ((splitOnce? afterArrow [')']).map (·.1)).getD afterArrow
  (parseUnsigned (2 ^ 64) (trimMatches (fun c => c = '\'' || c = '"') (trim tsText))).getD 0

/-- `parse_time_travel`. -/
def parseTimeTravel : Except NovaError Prepared :=
  match find? (p.caseMap.toUppercase sql) (text "AT(TIMESTAMP") with
  | none => parseFail "missing AT(TIMESTAMP"
  | some atPos => do
    let afterAt ← sliceFrom sql atPos
    match splitOnce? afterAt (text "=>") with
    | none => parseFail "missing => in AT(TIMESTAMP => ...)"
    | some (_, afterArrow) =>
      let before ← sliceTo sql atPos
      let cleanSql := trimEndMatches (· = ',') (trimEndMatches isWhitespace before)
      return .fake (text "DROP TABLE __tt_" ++ text (toString (timestampOf afterArrow)) ++
        text "__" ++ replace cleanSql ' ' '_')

/-- `parse_gc`. -/
def parseGc : Except NovaError Prepared :=
  let retention := ((splitWhitespace sql)[1]?.bind fun w =>
    parseUnsigned (2 ^ 32) (trimSemicolons w)).getD 30
  .ok (.fake (text "DROP TABLE __gc_" ++ text (toString retention) ++ text "__"))

/-- `parse_backup`. -/
def parseBackup : Except NovaError Prepared :=
  let path := ((splitWhitespace sql)[2]?.map trimSemicolons).getD []
  .ok (.fake (text "DROP TABLE __backup__" ++ path))

/-- `parse_restore`. -/
def parseRestore : Except NovaError Prepared :=
  let path := ((splitWhitespace sql)[2]?.map trimSemicolons).getD []
  .ok (.fake (text "DROP TABLE __restore__" ++ path))

end Parser

/-! ### Statements -/

/-- The kinds of statements that `parse` tells apart by their keywords. -/
inductive Form
  | clone
  | createStream
  | dropStream
  | showStreams
  | describeStream
  | streamHasData
  | streamRead
  | dynamicTable
  | alterDynamicTable
  | dropDynamicTable
  | showDynamicTables
  | functionGrant
  | functionRevoke
  | showGrants
  | gc
  | backup
  | restore
  | timeTravel
  | plain
  deriving DecidableEq

/-- The kind of a statement, by its text in upper case. -/
def Form.of (upper : Str) : Form :=
  if contains upper " CLONE " then clone
  else if startsWith upper "CREATE STREAM " then createStream
  else if startsWith upper "DROP STREAM " then dropStream
  else if startsWith upper "SHOW STREAMS" then showStreams
  else if startsWith upper "DESCRIBE STREAM " || startsWith upper "DESC STREAM " then describeStream
  else if startsWith upper "SELECT SYSTEM$STREAM_HAS_DATA" then streamHasData
  else if startsWith upper "SELECT " && contains upper " WITH (COMMIT" then streamRead
  else if startsWith upper "CREATE DYNAMIC TABLE" ||
      startsWith upper "CREATE OR REPLACE DYNAMIC TABLE" then dynamicTable
  else if startsWith upper "ALTER DYNAMIC TABLE" then alterDynamicTable
  else if startsWith upper "DROP DYNAMIC TABLE" then dropDynamicTable
  else if startsWith upper "SHOW DYNAMIC TABLES" then showDynamicTables
  else if startsWith upper "GRANT " && contains upper " ON FUNCTION " then functionGrant
  else if startsWith upper "REVOKE " && contains upper " ON FUNCTION " then functionRevoke
  else if startsWith upper "SHOW GRANTS" then showGrants
  else if startsWith upper "GC" || startsWith upper "VACUUM" then gc
  else if startsWith upper "BACKUP" then backup
  else if startsWith upper "RESTORE" then restore
  else if contains upper " AT(TIMESTAMP" then timeTravel
  else plain

namespace Parser

variable (p : Parser) (sql : Str)

/-- The branch of `parse` for a kind of statement. -/
def prepareForm : Form → Except NovaError Prepared
  | .clone => parseClone sql
  | .createStream => p.parseStream sql
  | .dropStream => parseDropStream sql
  | .showStreams => p.parseShowStreams sql
  | .describeStream => parseDescribeStream sql
  | .streamHasData => parseSystemStreamHasData sql
  | .streamRead => p.parseStreamRead sql
  | .dynamicTable => p.parseDynamicTable sql
  | .alterDynamicTable => p.parseAlterDynamicTable sql
  | .dropDynamicTable => parseDropDynamicTable sql
  | .showDynamicTables => p.parseShowDynamicTables sql
  | .functionGrant => p.parseFunctionGrant sql false
  | .functionRevoke => p.parseFunctionGrant sql true
  | .showGrants => p.parseShowGrants sql
  | .gc => parseGc sql
  | .backup => parseBackup sql
  | .restore => parseRestore sql
  | .timeTravel => p.parseTimeTravel sql
  | .plain => .ok (.fake sql)

/-- The kind of a statement. -/
def form : Form := .of (p.caseMap.toUppercase (trim sql))

/-- What `parse` hands to `sqlparser`. -/
def prepare : Except NovaError Prepared := p.prepareForm (trim sql) (p.form sql)

/-- Read what is handed to `sqlparser`. -/
def finish : Prepared → Except NovaError (List Statement)
  | .statements stmts => .ok stmts
  | .sql sql patch context => match p.parseSql sql with
    | .ok stmts => .ok (patch.apply stmts)
    | .error e => parseFail (context ++ e)

/-- `SqlParser::parse`. -/
def parse : Except NovaError (List Statement) := do
  let prepared ← p.prepare sql
  p.finish prepared

end Parser

end NovaCore.Sql
